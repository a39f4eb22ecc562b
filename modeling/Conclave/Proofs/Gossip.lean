import Conclave.Proofs.OwnProgress

/-!
# Gossip

A status replaces a record if its serial, its height or its round is higher. On arbitrary statuses
this is no order, but the statuses that one validator has in the course of its life are ordered by
their serials, and the heights and rounds follow. So whatever the network does to them, a peer ends
up with the latest that reached it.
-/

namespace Conclave

open NodeStatus (Precedes)

variable {n : ℕ}

/-! ### Fresher statuses of one validator -/

section Fresher

variable {s t r : NodeStatus} {heard life : List NodeStatus}

lemma NodeStatus.Precedes.not_fresher (h : Precedes s t) : ¬s.fresher t = true := by
  have hserial := h.serial_le
  have horder := h.order
  simp only [NodeStatus.fresher, decide_eq_true_eq]
  omega

lemma fresher_of_serial_lt (h : s.serial < t.serial) : t.fresher s = true := by
  simp [NodeStatus.fresher, h]

lemma NodeStatus.Precedes.fresher_iff (h : Precedes s t) :
    t.fresher s = true ↔ s.serial < t.serial := by
  rcases h.serial with rfl | hlt
  · simp [h.not_fresher]
  · exact iff_of_true (fresher_of_serial_lt hlt) hlt

/-- Of two statuses that one validator has had, the one with the higher serial is fresher. -/
lemma fresher_iff_of_comparable (h : Precedes s t ∨ Precedes t s) :
    t.fresher s = true ↔ s.serial < t.serial := by
  rcases h with h | h
  · exact h.fresher_iff
  · have hserial := h.serial_le
    exact iff_of_false h.not_fresher (by omega)

/-- The statuses that one validator has had, with serials from zero on. -/
structure Lifelike (life : List NodeStatus) : Prop where
  comparable : ∀ s ∈ life, ∀ t ∈ life, Precedes s t ∨ Precedes t s
  serial_nonneg : ∀ s ∈ life, 0 ≤ s.serial

lemma Lifelike.eq_or_lt (h : Lifelike life) (hs : s ∈ life) (ht : t ∈ life)
    (hle : s.serial ≤ t.serial) : s = t ∨ s.serial < t.serial := by
  rcases h.comparable s hs t ht with hst | hts
  · exact hst.serial.imp Eq.symm id
  · rcases hts.serial with rfl | hlt
    · exact .inl rfl
    · omega

/-- The status with the greatest serial of all in a list, which no other one in it has. -/
def Latest (heard : List NodeStatus) (r : NodeStatus) : Prop :=
  r ∈ heard ∧ ∀ t ∈ heard, t = r ∨ t.serial < r.serial

/-- What is known of a validator of which nothing but the statuses `heard` was heard. -/
def Known (heard : List NodeStatus) (r : NodeStatus) : Prop :=
  (heard = [] ∧ r = .unknown) ∨ Latest heard r

/-- A status is applied exactly if all that were heard before have lower serials. -/
lemma Lifelike.fresher_iff (h : Lifelike life) (hs : s ∈ life) (hheard : ∀ t ∈ heard, t ∈ life)
    (hr : Known heard r) : s.fresher r = true ↔ ∀ t ∈ heard, t.serial < s.serial := by
  rcases hr with ⟨rfl, rfl⟩ | ⟨hmem, hlatest⟩
  · have hserial := h.serial_nonneg s hs
    have hunknown : NodeStatus.unknown.serial < s.serial := by
      change (-1 : ℤ) < s.serial
      omega
    exact iff_of_true (fresher_of_serial_lt hunknown) (by simp)
  · rw [fresher_iff_of_comparable (h.comparable r (hheard r hmem) s hs)]
    refine ⟨fun hlt t ht => ?_, fun hall => hall r hmem⟩
    rcases hlatest t ht with rfl | htr
    · exact hlt
    · exact htr.trans hlt

/-- What is known after one status more. -/
lemma Lifelike.known_append (h : Lifelike life) (hs : s ∈ life) (hheard : ∀ t ∈ heard, t ∈ life)
    (hr : Known heard r) : Known (heard ++ [s]) (if s.fresher r then s else r) := by
  right
  have happlied := h.fresher_iff hs hheard hr
  split
  · rename_i hfresher
    refine ⟨by simp, fun t ht => ?_⟩
    rcases List.mem_append.mp ht with ht | ht
    · exact .inr (happlied.mp hfresher t ht)
    · exact .inl (List.mem_singleton.mp ht)
  · rename_i hstale
    rcases hr with ⟨rfl, rfl⟩ | ⟨hmem, hlatest⟩
    · simp [happlied] at hstale
    · refine ⟨List.mem_append_left _ hmem, fun t ht => ?_⟩
      rcases List.mem_append.mp ht with ht | ht
      · exact hlatest t ht
      · obtain rfl := List.mem_singleton.mp ht
        -- A stale status is older than the record, unless it is the record once more.
        rw [fresher_iff_of_comparable (h.comparable r (hheard r hmem) t hs)] at hstale
        exact h.eq_or_lt hs (hheard r hmem) (by omega)

end Fresher

namespace Manager

variable {m x : Manager n} {a : Fin n} {heard life : List NodeStatus}

/-! ### The statuses of a life -/

/-- The own statuses that others can learn of: at first, and after every input. A fault ends
them. -/
def snapshots (m : Manager n) : List Input → List NodeStatus
  | [] => [m.own]
  | input :: inputs =>
    match m.handle input with
    | .error _ => [m.own]
    | .ok (m', _) => m.own :: snapshots m' inputs

lemma precedes_of_mem_snapshots {inputs : List Input} {s : NodeStatus}
    (h : s ∈ m.snapshots inputs) : Precedes m.own s := by
  induction inputs generalizing m with
  | nil =>
    obtain rfl := List.mem_singleton.mp h
    exact precedes_refl _
  | cons input inputs ih =>
    unfold snapshots at h
    split at h
    · obtain rfl := List.mem_singleton.mp h
      exact precedes_refl _
    · rename_i m' applied hhandle
      rcases List.mem_cons.mp h with rfl | h
      · exact precedes_refl _
      · have hnext := precedes_respond m input
        rw [respond_of_handle hhandle] at hnext
        exact hnext.trans (ih h)

theorem pairwise_snapshots (m : Manager n) (inputs : List Input) :
    (m.snapshots inputs).Pairwise Precedes := by
  induction inputs generalizing m with
  | nil => exact List.pairwise_singleton _ _
  | cons input inputs ih =>
    unfold snapshots
    split
    · exact List.pairwise_singleton _ _
    · rename_i m' applied hhandle
      have hnext := precedes_respond m input
      rw [respond_of_handle hhandle] at hnext
      exact .cons (fun s hs => hnext.trans (precedes_of_mem_snapshots hs)) (ih m')

theorem lifelike_snapshots (h : 0 ≤ m.own.serial) (inputs : List Input) :
    Lifelike (m.snapshots inputs) where
  comparable s hs t ht := by
    have hpair : (m.snapshots inputs).Pairwise fun s t => Precedes s t ∨ Precedes t s :=
      (pairwise_snapshots m inputs).imp fun h => .inl h
    have hsymm : Std.Symm fun s t => Precedes s t ∨ Precedes t s := ⟨fun _ _ h => h.symm⟩
    exact hpair.forall_of_forall (fun s _ => .inl (precedes_refl s)) hs ht
  serial_nonneg s hs := h.trans (precedes_of_mem_snapshots hs).serial_le

/-! ### Deliveries -/

lemma respond_status (ha : a ≠ m.me) (s : NodeStatus) :
    m.respond (.status a s) =
      if s.fresher (m.statuses.get a) then ((m.hear a s).recompute, true) else (m, false) := by
  simp only [respond, onStatus, a.isLt, dite_true, Fin.eta, ha, if_false]
  rfl

lemma record_after_status (ha : a ≠ m.me) (s : NodeStatus) :
    (m.respond (.status a s)).1.statuses.get a =
      if s.fresher (m.statuses.get a) then s else m.statuses.get a := by
  rw [respond_status ha]
  split
  · rw [record_recompute (by rwa [hear_me]), hear_statuses, Table.get_put_self]
  · rfl

/-- The status of validator `a` that an input tells of. -/
def Input.statusOf (a : Fin n) : Input → Option NodeStatus
  | .status node s => if node = a then some s else none
  | _ => none

lemma statusOf_eq_some {input : Input} {s : NodeStatus} :
    input.statusOf a = some s ↔ input = .status a s := by
  cases input <;> simp [Input.statusOf]

/-- Whatever else a manager is told, its record of `a` is the latest status of `a` it has heard. -/
lemma known_run (h : Lifelike life) {inputs : List Input} (ha : a ≠ m.me)
    (hm : Known heard (m.statuses.get a)) (hheard : ∀ s ∈ heard, s ∈ life)
    (hinputs : ∀ s ∈ inputs.filterMap (Input.statusOf a), s ∈ life)
    (hrun : m.run inputs = .ok x) :
    Known (heard ++ inputs.filterMap (Input.statusOf a)) (x.statuses.get a) := by
  induction inputs generalizing m heard with
  | nil =>
    cases hrun
    simpa using hm
  | cons input inputs ih =>
    obtain ⟨-, hrest⟩ := run_cons_eq_ok.mp hrun
    have hme : a ≠ (m.respond input).1.me := by rwa [(fixed_respond m input).1]
    cases htold : input.statusOf a with
    | none =>
      rw [List.filterMap_cons_none htold] at hinputs ⊢
      have hkept : (m.respond input).1.statuses.get a = m.statuses.get a :=
        record_of_untold ha fun s hs => by simp [statusOf_eq_some.mpr hs] at htold
      exact ih hme (by rwa [hkept]) hheard hinputs hrest
    | some s =>
      obtain rfl := statusOf_eq_some.mp htold
      rw [List.filterMap_cons_some htold] at hinputs ⊢
      have hs : s ∈ life := hinputs s List.mem_cons_self
      rw [List.append_cons]
      refine ih hme ?_ ?_ (fun t ht => hinputs t (List.mem_cons_of_mem _ ht)) hrest
      · rw [record_after_status ha]
        exact h.known_append hs hheard hm
      · intro t ht
        rcases List.mem_append.mp ht with ht | ht
        · exact hheard t ht
        · obtain rfl := List.mem_singleton.mp ht
          exact hs

lemma record_start (config : Config) {me : Fin n} (height wallMillis : ℕ) (ha : a ≠ me) :
    (start config me height wallMillis).statuses.get a = .unknown :=
  (start_invariant (P := fun x => x.me = me ∧ x.statuses.get a = .unknown)
    (fun _ => ⟨rfl, by simp [blank, Table.get_put_of_ne _ _ ha.symm]⟩)
    (fun _ _ hmove hx => hmove.keeps_record ha (by simp) hx) (fun _ hx => hx) wallMillis).2

/-- Validators `a` and `b` live through any inputs, `a` with serials from zero on. What `b` hears of
`a` are statuses that `a` has had, in any order, some of them more than once and others never, with
anything else in between. Then the record that `b` has of `a` is always the one with the greatest
serial of those that have arrived, and the next one is applied exactly if its serial exceeds all of
theirs. -/
theorem records_converge {a b : Fin n} (hab : a ≠ b) {configA configB : Config}
    {heightA heightB wallA wallB : ℕ} (hserial : 0 ≤ (start configA a heightA wallA).own.serial)
    {life inputs : List Input}
    (hgossip : ∀ s ∈ inputs.filterMap (Input.statusOf a),
      s ∈ (start configA a heightA wallA).snapshots life)
    (hrun : (start configB b heightB wallB).run inputs = .ok m) :
    let delivered := inputs.filterMap (Input.statusOf a)
    (delivered ≠ [] → m.statuses.get a ∈ delivered ∧
      ∀ t ∈ delivered, t = m.statuses.get a ∨ t.serial < (m.statuses.get a).serial) ∧
    ∀ s ∈ (start configA a heightA wallA).snapshots life,
      ((m.respond (.status a s)).2 = true ↔ ∀ t ∈ delivered, t.serial < s.serial) := by
  intro delivered
  have hlife := lifelike_snapshots hserial life
  have hstart := fixed_start configB b heightB wallB
  have hfirst : Known [] ((start configB b heightB wallB).statuses.get a) :=
    .inl ⟨rfl, record_start configB heightB wallB hab⟩
  have hknown : Known delivered (m.statuses.get a) := by
    simpa using known_run hlife (by rwa [hstart.1]) hfirst (by simp) hgossip hrun
  refine ⟨fun hne => hknown.resolve_left fun h => hne h.1, fun s hs => ?_⟩
  have hme : a ≠ m.me := by rwa [(fixed_run hrun).1, hstart.1]
  rw [respond_status hme, ← hlife.fresher_iff hs hgossip hknown]
  split
  · simp [*]
  · simp [*]

/-- The last of three statuses arrives first, then the first one, and then the last once more. The
one in the middle, should it still arrive, is too late. -/
theorem records_converge_reordered :
    let first := NodeStatus.fresh 0 0
    let middle := { first with serial := 1, revolting := true }
    let last := NodeStatus.fresh 1 2
    let inputs : List Input := [.status 0 last, .revolt, .status 0 first, .status 0 last]
    ∃ m, (start {} (1 : Fin 4) 0 0).run inputs = .ok m ∧ m.statuses.get 0 = last ∧
      ¬(m.respond (.status (0 : Fin 4) middle)).2 = true := by
  intro first middle last inputs
  let life : List Input := [.revolt, .heightAdvance 1]
  have hsnapshots : (start {} (0 : Fin 4) 0 0).snapshots life = [first, middle, last] := by
    decide +kernel
  have hdelivered : inputs.filterMap (Input.statusOf (0 : Fin 4)) = [last, first, last] := by
    decide +kernel
  have hview : ((start {} (1 : Fin 4) 0 0).run inputs).toOption.isSome = true := by decide +kernel
  obtain ⟨m, hm⟩ := Option.isSome_iff_exists.mp hview
  have hgossip : ∀ s ∈ inputs.filterMap (Input.statusOf (0 : Fin 4)),
      s ∈ (start {} (0 : Fin 4) 0 0).snapshots life := by
    rw [hsnapshots, hdelivered]
    decide
  obtain ⟨hlatest, happlied⟩ := records_converge (by decide) (by decide +kernel) hgossip
    (ok_of_toOption hm)
  rw [hsnapshots] at happlied
  simp only [hdelivered] at hlatest happlied
  obtain ⟨hmem, hall⟩ := hlatest (by simp)
  refine ⟨m, ok_of_toOption hm, ?_, fun htrue => ?_⟩
  · have hne : m.statuses.get 0 ≠ first := fun he => by
      have hlast := hall last (by simp)
      rw [he] at hlast
      exact absurd hlast (by decide)
    simpa [hne] using hmem
  · have hlt := (happlied middle (by simp)).mp htrue last (by simp)
    exact absurd hlt (by decide)

end Manager

end Conclave
