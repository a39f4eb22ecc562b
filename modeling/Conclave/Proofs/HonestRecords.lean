import Conclave.Proofs.InputEffects
import Conclave.Proofs.ManagerQuestions

/-!
# Managers among honest peers

A status manager that hears nothing but statuses its peers really had, and signatures they really
gave, holds no more than that in its records, its intent and its signature slots. Heights of blocks
are given by a function, since a block determines its height.
-/

namespace Conclave.Manager

variable {n : ℕ} {m m' x y : Manager n}

/-- What has happened among the validators of an ensemble: the statuses they had and the blocks they
signed. -/
structure Past (n : ℕ) (heightOf : Rid → ℕ) where
  had : Fin n → NodeStatus → Prop
  signed : Fin n → Rid → Prop
  rid_height : ∀ j s rid, had j s → s.rid = some rid → heightOf rid = s.height

variable {heightOf : Rid → ℕ} (past : Past n heightOf)

/-- Validator `j` was once above the height of `rid` or prepared on it. -/
def Past.Vouched (j : Fin n) (rid : Rid) : Prop :=
  ∃ s, past.had j s ∧
    (heightOf rid < s.height ∨ (s.phase = .prepared ∧ s.rid = some rid))

/-- The records, the intent and the signatures of a manager are backed by the past. -/
structure Backed (m : Manager n) : Prop where
  coherent : m.Coherent
  record : ∀ j, j ≠ m.me → m.statuses.get j = .unknown ∨ past.had j (m.statuses.get j)
  rid_height : ∀ rid, m.own.rid = some rid → heightOf rid = m.own.height
  wanted_height : ∀ rid, m.intent = .fetchUnfinishedBlock rid → heightOf rid = m.own.height
  sources : ∀ rid nodes, m.intent = .fetchCommitSignatures rid nodes →
    ∀ j : Fin n, j.val ∈ nodes → past.Vouched j rid
  signed : m.own.phase = .prepared → ∀ rid, m.own.rid = some rid →
    ∀ j, j ≠ m.me → (m.signatures.get j).isSome = true → past.signed j rid

/-- An input that tells a manager at `height` of nothing but the past. -/
structure Honest (height : ℕ) (input : Input) : Prop where
  status : ∀ (j : Fin n) s, input = .status j s → past.had j s
  built : ∀ rid s, input = .built rid s → heightOf rid = height
  signature : ∀ (j : Fin n) rid s, input = .commitSignature j rid s → past.signed j rid

/-! ### Moves keep a manager backed -/

section Moves

variable {past}

lemma Becomes.backed {own : NodeStatus} {sigs : Table n (Option Signature)} {intent : Intent}
    (h : m.Becomes m' own sigs intent) (hm : m.Backed past) (hc : m'.Coherent)
    (hrid : ∀ rid, own.rid = some rid → heightOf rid = own.height)
    (hwanted : ∀ rid, intent = .fetchUnfinishedBlock rid → heightOf rid = own.height)
    (hsources : ∀ rid nodes, intent = .fetchCommitSignatures rid nodes →
      ∀ j : Fin n, j.val ∈ nodes → past.Vouched j rid)
    (hsigned : own.phase = .prepared → ∀ rid, own.rid = some rid →
      ∀ j, j ≠ m.me → (sigs.get j).isSome = true → past.signed j rid) :
    m'.Backed past where
  coherent := hc
  record j hj := by
    rw [h.me] at hj
    rw [h.peer hj]
    exact hm.record j hj
  rid_height := by
    rw [h.own_eq]
    exact hrid
  wanted_height := by
    rw [h.own_eq, h.intent]
    exact hwanted
  sources := by
    rw [h.intent]
    exact hsources
  signed := by
    rw [h.own_eq, h.me, h.signatures]
    exact hsigned

/-- The own record is no source of signatures, and the records of the peers are backed. -/
lemma Backed.vouched (hm : m.Backed past) (hp : m.own.phase = .prepared) {rid : Rid}
    (hr : m.own.rid = some rid) {j : Fin n} (hj : j.val ∈ m.signatureSources rid) :
    past.Vouched j rid := by
  obtain ⟨i, hi, hs, hsource⟩ := mem_signatureSources.mp hj
  obtain rfl := Fin.ext hi
  have hne : i ≠ m.me := by
    rintro rfl
    have hfilled := hm.coherent.sigs_of_prepared hp
    simp [hs] at hfilled
  rw [← hm.rid_height rid hr] at hsource
  rcases hm.record i hne with hu | hhad
  · simp [hu, NodeStatus.unknown, NodeStatus.fresh] at hsource
  · exact ⟨_, hhad, hsource.imp id fun h => h.2⟩

lemma Backed.step (hm : m.Backed past) (h : m.step = some m') :
    m'.Backed past := by
  have hc := hm.coherent.step h
  cases stride_of_step h with
  | catchUp unprepared behind news becomes =>
    obtain ⟨hp, hr, -⟩ := hm.coherent.dropped_waits unprepared
    exact becomes.backed hm hc (by simp [hr]) (by simp) (by simp) (by simp [hp])
  | nextRound upToDate revolting votes becomes =>
    refine becomes.backed hm hc ?_ (by simpa using hm.wanted_height) hm.sources ?_
    · intro rid hrid
      by_cases hp : m.own.phase = .prepared
      · rw [dropped_of_ne (by simp [hp])] at hrid ⊢
        exact hm.rid_height rid hrid
      · simp [(hm.coherent.dropped_waits hp).2.1] at hrid
    · intro hp
      have hp' : m.own.phase = .prepared := by
        by_contra hne
        simp [(hm.coherent.dropped_waits hne).1] at hp
      rw [keptSignatures_of_ne (by simp [hp']), dropped_of_ne (by simp [hp'])]
      exact hm.signed hp'
  | await upToDate calm phase news becomes =>
    refine becomes.backed hm hc hm.rid_height ?_ ?_ hm.signed
    · intro rid hi
      obtain ⟨p, hp, hh, hr⟩ := waitingIntent_eq_fetch hi
      rcases hm.record p hp with hu | hhad
      · simp [hu, NodeStatus.unknown, NodeStatus.fresh] at hr
      · rw [← hh]
        exact past.rid_height p _ rid hhad hr
    · intro rid nodes hi
      rcases m.waitingIntent_cases with h | h | ⟨r, h⟩ <;> simp [hi] at h
  | prepare upToDate calm phase held becomes =>
    refine becomes.backed hm hc hm.rid_height hm.wanted_height hm.sources ?_
    intro _ rid _ j hj hs
    obtain ⟨s, hsigs⟩ := hm.coherent.sigs_of_having phase
    rw [hsigs, Table.get_put_of_ne _ _ hj.symm] at hs
    simp at hs
  | commit calm phase news signed becomes =>
    exact becomes.backed hm hc hm.rid_height (by simp) (by simp) hm.signed
  | gather calm phase uncommitted unsigned rid held news becomes =>
    refine becomes.backed hm hc hm.rid_height ?_ ?_ hm.signed
    · intro r hi
      rcases m.preparedIntent_cases rid with h | ⟨nodes, h⟩ <;> simp [hi] at h
    · intro r nodes hi j hj
      obtain ⟨rfl, rfl⟩ := preparedIntent_eq_fetch hi
      exact hm.vouched phase held hj

/-- Every move that an honest input leads to keeps a manager backed. -/
theorem Backed.move {height : ℕ} {input : Input} (hm : x.Backed past)
    (hin : Honest past height input) (hheight : input.climbs = false → x.own.height = height)
    (h : Move input x y) : y.Backed past := by
  have hc := hm.coherent.move h
  cases h with
  | rest => exact hm
  | step h => exact hm.step h
  | cutOff =>
    exact (becomes_cutOff x).backed hm hc hm.rid_height hm.wanted_height hm.sources hm.signed
  | reject cause =>
    exact (x.becomes_self.record _).backed hm hc hm.rid_height hm.wanted_height hm.sources hm.signed
  | setTime now =>
    have hsame : x.Becomes (x.setTime now) x.own x.signatures x.intent :=
      ⟨rfl, rfl, (Table.put_get _ _).symm, rfl, rfl⟩
    exact hsame.backed hm hc hm.rid_height hm.wanted_height hm.sources hm.signed
  | hear i s told peer fresher =>
    refine ⟨hc, fun j hj => ?_, ?_, ?_, ?_, ?_⟩
    · rw [hear_me] at hj
      rw [hear_statuses, Table.get_put]
      split
      · rename_i hij
        subst hij
        exact .inr (hin.status i s told)
      · exact hm.record j hj
    · rw [hear_own peer]
      exact hm.rid_height
    · rw [hear_own peer, hear_intent]
      exact hm.wanted_height
    · rw [hear_intent]
      exact hm.sources
    · rw [hear_own peer, hear_me, hear_signatures]
      exact hm.signed
  | climb => exact (becomes_climb x).backed hm hc (by simp) (by simp) (by simp) (by simp)
  | take rid signature wanted =>
    refine (becomes_take x rid signature).backed hm hc ?_ (by simp) (by simp) (by simp)
    intro r hr
    obtain rfl : rid = r := Option.some.inj hr
    rcases wanted with ⟨-, hi⟩ | ⟨hi, -⟩
    · exact hm.wanted_height rid hi
    · rw [hin.built rid signature hi]
      exact (hheight (by rw [hi]; rfl)).symm
  | collect i rid signature told phase held =>
    refine (becomes_collect x i signature).backed hm hc hm.rid_height hm.wanted_height hm.sources ?_
    intro hp r hr j hj hs
    by_cases hij : i = j
    · subst hij
      obtain rfl : rid = r := Option.some.inj (held.symm.trans hr)
      exact hin.signature i rid signature told
    · rw [Table.get_put_of_ne _ _ hij] at hs
      exact hm.signed hp r hr j hj hs
  | rebel =>
    exact (becomes_rebel x).backed hm hc hm.rid_height hm.wanted_height hm.sources hm.signed

/-- An honest input keeps a manager backed, at every moment. -/
theorem Backed.respond {input : Input} (hm : m.Backed past)
    (hin : Honest past m.own.height input) : (m.respond input).1.Backed past := by
  have hboth : (m.respond input).1.Backed past ∧
      (input.climbs = false → (m.respond input).1.own.height = m.own.height) := by
    refine respond_invariant
      (P := fun x => x.Backed past ∧ (input.climbs = false → x.own.height = m.own.height))
      ⟨hm, fun _ => rfl⟩ ?_
    rintro x y hmove ⟨hx, hh⟩
    exact ⟨hx.move hin hh hmove, fun hi => (hmove.height_eq hi).trans (hh hi)⟩
  exact hboth.1

lemma Backed.mono {past' : Past n heightOf} (hm : m.Backed past)
    (hhad : ∀ j s, past.had j s → past'.had j s)
    (hsigned : ∀ j rid, past.signed j rid → past'.signed j rid) : m.Backed past' where
  coherent := hm.coherent
  record j hj := (hm.record j hj).imp id (hhad j _)
  rid_height := hm.rid_height
  wanted_height := hm.wanted_height
  sources rid nodes hi j hj := by
    obtain ⟨s, hs, hv⟩ := hm.sources rid nodes hi j hj
    exact ⟨s, hhad j s hs, hv⟩
  signed hp rid hr j hj hs := hsigned j rid (hm.signed hp rid hr j hj hs)

lemma backed_blank (config : Config) (me : Fin n) (height : ℕ) (serial : ℤ) :
    (blank config me height serial).Backed past := by
  have hown : (blank config me height serial).own = .fresh height serial := by
    simp [own, blank]
  refine ⟨coherent_blank config me height serial, fun j hj => .inl ?_, ?_, ?_, ?_, ?_⟩
  · have hne : me ≠ j := fun h => hj h.symm
    simp [blank, Table.get_put_of_ne _ _ hne]
  · simp [hown, NodeStatus.fresh]
  · simp [blank]
  · simp [blank]
  · simp [hown, NodeStatus.fresh]

theorem backed_start (config : Config) (me : Fin n) (height wallMillis : ℕ) :
    (start config me height wallMillis).Backed past := by
  refine start_invariant (backed_blank config me height) ?_ ?_ wallMillis
  · intro x y hmove hx
    have hin : Honest past x.own.height .recompute := ⟨by simp, by simp, by simp⟩
    exact hx.move hin (fun _ => rfl) hmove
  · intro x hx
    exact ⟨hx.coherent, hx.record, hx.rid_height, hx.wanted_height, hx.sources, hx.signed⟩

end Moves

end Conclave.Manager
