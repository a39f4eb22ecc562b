import Conclave.Proofs.RevoltDeadlines
import Conclave.Proofs.ViewChanges

/-!
# When a revolt starts

A tracker looks at a status manager now and then, while the manager goes on with whatever it is
told. What a look answers follows from the looks so far: since when they have found the same height
and round and something to build, and when the primary was last heard of. A revolt lasts until its
round is over, so that no round sees a second one.
-/

namespace Conclave

/-! ### Looks -/

/-- What a look at a status manager finds, and whether it starts a revolt. -/
structure Look where
  own : NodeStatus
  isPrimary : Bool
  /-- When the primary was last heard of. -/
  lastHeard : Option Duration
  shouldBuild : Bool
  now : Duration
  revolts : Bool

namespace Look

/-- When the waiting begins anew: whenever the height and the round are not the last ones seen, and
whenever there is nothing to build. -/
def resets : ℕ × ℕ → List Look → List Duration
  | _, [] => []
  | seen, look :: looks =>
    if look.own.slot ≠ seen ∨ look.shouldBuild = false then look.now :: resets look.own.slot looks
    else resets look.own.slot looks

/-- The beginning of the waiting that the last look found. -/
def since (created : Duration) (seen : ℕ × ℕ) (looks : List Look) : Duration :=
  (resets seen looks).getLastD created

/-- The height and the round that were seen last. -/
def lastSlot (seen : ℕ × ℕ) (looks : List Look) : ℕ × ℕ := (looks.map (·.own.slot)).getLastD seen

lemma resets_append (seen : ℕ × ℕ) (looks : List Look) (look : Look) :
    resets seen (looks ++ [look]) = resets seen looks ++
      if look.own.slot ≠ lastSlot seen looks ∨ look.shouldBuild = false then [look.now]
      else [] := by
  induction looks generalizing seen with
  | nil => simp [resets, lastSlot]
  | cons first looks ih =>
    have hlast : lastSlot seen (first :: looks) = lastSlot first.own.slot looks := by
      simp only [lastSlot, List.map_cons, List.getLastD_cons]
    rw [List.cons_append, resets, ih, hlast, resets]
    split
    · rfl
    · rfl

lemma since_append (created : Duration) (seen : ℕ × ℕ) (looks : List Look) (look : Look) :
    since created seen (looks ++ [look]) =
      if look.own.slot ≠ lastSlot seen looks ∨ look.shouldBuild = false then look.now
      else since created seen looks := by
  unfold since
  rw [resets_append]
  split
  · simp
  · simp

lemma lastSlot_append (seen : ℕ × ℕ) (looks : List Look) (look : Look) :
    lastSlot seen (looks ++ [look]) = look.own.slot := by
  simp [lastSlot]

/-- The primary of another was heard of too long ago, if ever. -/
def Silence (c : RevoltConfig) (look : Look) : Prop :=
  ∃ limit, c.fastTimeout = some limit ∧ look.isPrimary = false ∧ 0 < look.own.height ∧
    (look.lastHeard.getD .zero).nanos + limit.nanos < look.now.nanos

/-- The last of `looks` finds a round that has had its time. -/
def Expired (c : RevoltConfig) (created : Duration) (seen : ℕ × ℕ) (looks : List Look)
    (look : Look) : Prop :=
  c.expiry (since created seen (looks ++ [look])) look.own.round < look.now

end Look

/-! ### Watching a manager -/

/-- A tracker, the manager that it looks at, and the looks so far, the oldest first. -/
structure Watch (n : ℕ) where
  tracker : RevoltTracker
  manager : Manager n
  looks : List Look := []

namespace Watch

variable {n : ℕ}

/-- What can happen while a manager is watched. -/
inductive Act where
  | tell (input : Manager.Input)
  | look (shouldBuild : Bool) (now : Duration)

def Act.time? : Act → Option Duration
  | .tell _ => none
  | .look _ now => some now

def act (w : Watch n) : Act → Except Fault (Watch n)
  | .tell input => do
    let (manager, _) ← w.manager.handle input
    return { w with manager }
  | .look shouldBuild now => do
    let m := w.manager
    let (tracker, manager, revolts) ← w.tracker.update m shouldBuild now
    let look : Look := ⟨m.own, m.isPrimary, m.heardAt.get m.primary, shouldBuild, now, revolts⟩
    return { tracker, manager, looks := w.looks ++ [look] }

/-- The watch over `m` that begins at `created`, after all acts. -/
def run (c : RevoltConfig) (m : Manager n) (created : Duration) (acts : List Act) :
    Except Fault (Watch n) := do
  let tracker ← RevoltTracker.start c m.own created
  acts.foldlM act { tracker, manager := m }

end Watch

/-! ### A round sees one revolt -/

/-- Nobody who reports `t` can revolt in the round of `s`, which is over or has its revolt. -/
def NodeStatus.Spent (s t : NodeStatus) : Prop :=
  s.height < t.height ∨ (t.height = s.height ∧ s.round < t.round) ∨
    (t.slot = s.slot ∧ t.revolting = true)

namespace Manager

variable {n : ℕ} {m x y : Manager n} {input : Input} {s : NodeStatus}

lemma spent_shift (h : s.Spent x.own) (hshift : Shift input x y) : s.Spent y.own := by
  simp only [NodeStatus.Spent, NodeStatus.slot, Prod.mk.injEq] at h ⊢
  cases hshift with
  | stay height round revolting =>
    rw [height, round, revolting]
    exact h
  | rise changes =>
    rw [changes.height, changes.round]
    omega
  | climb height =>
    rw [height]
    omega
  | rebel _ height round revolting =>
    rw [height, round, revolting]
    exact h.imp_right (Or.imp_right fun h => ⟨h.1, rfl⟩)

lemma spent_respond (h : s.Spent m.own) (input : Input) : s.Spent (m.respond input).1.own :=
  respond_invariant (P := fun x => s.Spent x.own) h fun _ _ hmove hx => spent_shift hx hmove.shift

/-- A recompute follows at once, and may end the round as soon as the revolt is on. -/
lemma spent_startRevolting (m : Manager n) : m.own.Spent m.startRevolting.own := by
  have hrebel : m.own.Spent m.rebel.own := by
    rw [(becomes_rebel m).own_eq]
    exact .inr (.inr ⟨rfl, rfl⟩)
  exact spent_respond hrebel .recompute

end Manager

namespace Watch

variable {n : ℕ} {c : RevoltConfig} {m : Manager n} {created : Duration} {w w' : Watch n}

/-- A look answers as it should. -/
def Apt (c : RevoltConfig) (created : Duration) (seen : ℕ × ℕ) (looks : List Look) (look : Look) :
    Prop :=
  look.revolts = true ↔
    look.own.revolting = false ∧ (look.Silence c ∨ look.Expired c created seen looks)

/-- What is so after every act: the tracker has seen what the last look found and keeps the deadline
that follows from the looks, and the manager has not left its revolts behind. -/
structure Fits (c : RevoltConfig) (created : Duration) (seen : ℕ × ℕ) (w : Watch n) : Prop where
  config : w.tracker.config = c
  slot : (w.tracker.height, w.tracker.round) = Look.lastSlot seen w.looks
  deadline : w.tracker.deadline = c.expiry (Look.since created seen w.looks) w.tracker.round
  spent : ∀ look ∈ w.looks, look.revolts = true → look.own.Spent w.manager.own
  once : ((w.looks.filter (·.revolts)).map (·.own.slot)).Nodup
  apt : ∀ before look, before ++ [look] <+: w.looks → Apt c created seen before look

variable {seen : ℕ × ℕ}

lemma Fits.tell (h : w.Fits c created seen) (input : Manager.Input) :
    Fits c created seen { w with manager := (w.manager.respond input).1 } :=
  { h with
    spent := fun look hlook hrevolts => Manager.spent_respond (h.spent look hlook hrevolts) input }

/-- The deadline that the next look goes by. -/
lemma Fits.refresh (h : w.Fits c created seen) {t : RevoltTracker} {look : Look}
    (ht : w.tracker.refresh look.own look.shouldBuild look.now = .ok t) :
    t.config = c ∧ (t.height, t.round) = look.own.slot ∧
      t.deadline = c.expiry (Look.since created seen (w.looks ++ [look])) look.own.round := by
  rw [RevoltTracker.refresh_eq, h.slot] at ht
  rw [Look.since_append]
  split at ht
  · rename_i hreset
    rw [RevoltTracker.resetDeadline_eq] at ht
    split at ht
    · cases ht
      refine ⟨h.config, rfl, ?_⟩
      rw [if_pos hreset, ← h.config]
    · cases ht
  · rename_i hstays
    cases ht
    have hslot : look.own.slot = (w.tracker.height, w.tracker.round) := by
      rw [h.slot]
      exact not_not.mp (not_or.mp hstays).1
    refine ⟨h.config, hslot.symm, ?_⟩
    have hround : look.own.round = w.tracker.round := congrArg Prod.snd hslot
    rw [if_neg hstays, hround]
    exact h.deadline

/-- A look with its revolt, which the manager has not left behind either. -/
lemma Fits.append (h : w.Fits c created seen) {t : RevoltTracker} {look : Look} {m' : Manager n}
    (hown : look.own = w.manager.own)
    (ht : w.tracker.refresh look.own look.shouldBuild look.now = .ok t)
    (hdue : look.revolts = t.due look.own look.isPrimary look.lastHeard look.now)
    (hkeeps : ∀ s : NodeStatus, s.Spent w.manager.own → s.Spent m'.own)
    (hrebels : look.revolts = true → look.own.Spent m'.own) :
    Fits c created seen ⟨t, m', w.looks ++ [look]⟩ := by
  obtain ⟨hconfig, hslot, hdeadline⟩ := h.refresh ht
  have hround : t.round = look.own.round := congrArg Prod.snd hslot
  have hapt : Apt c created seen w.looks look := by
    unfold Apt
    rw [hdue, RevoltTracker.due_iff, hconfig, hdeadline]
    rfl
  refine {
    config := hconfig
    slot := by rw [hslot, Look.lastSlot_append]
    deadline := by rw [hdeadline, hround]
    spent := fun seenBefore hmem hrevolts => ?_
    once := ?_
    apt := fun before last hprefix => ?_ }
  · rcases List.mem_append.mp hmem with hmem | hmem
    · exact hkeeps _ (h.spent seenBefore hmem hrevolts)
    · obtain rfl := List.mem_singleton.mp hmem
      exact hrebels hrevolts
  · cases hrevolts : look.revolts with
    | false => simpa [hrevolts] using h.once
    | true =>
      have hcalm : look.own.revolting = false := (hapt.mp hrevolts).1
      have hnew : look.own.slot ∉ (w.looks.filter (·.revolts)).map (·.own.slot) := by
        intro hin
        obtain ⟨earlier, hearlier, hsame⟩ := List.mem_map.mp hin
        obtain ⟨hmem, hrevolted⟩ := List.mem_filter.mp hearlier
        have hspent := h.spent earlier hmem hrevolted
        rw [← hown] at hspent
        simp only [NodeStatus.slot, Prod.mk.injEq] at hsame
        rcases hspent with hlt | ⟨-, hlt⟩ | ⟨-, htrue⟩
        · omega
        · omega
        · rw [hcalm] at htrue
          cases htrue
      rw [List.filter_append, List.map_append, List.nodup_append]
      refine ⟨h.once, by simp [hrevolts], ?_⟩
      intro slot hin slot' hin'
      simp only [hrevolts, List.filter_cons_of_pos, List.filter_nil, List.map_cons, List.map_nil,
        List.mem_singleton] at hin'
      rw [hin']
      exact ne_of_mem_of_not_mem hin hnew
  · rcases List.prefix_concat_iff.mp hprefix with heq | hprefix
    · obtain ⟨rfl, hlast⟩ := List.append_inj' heq rfl
      cases hlast
      exact hapt
    · exact h.apt before last hprefix

lemma Fits.look (h : w.Fits c created seen) {shouldBuild : Bool} {now : Duration}
    (hw : w.act (.look shouldBuild now) = .ok w') : w'.Fits c created seen := by
  obtain ⟨⟨t, m', revolts⟩, hupdate, hlooked⟩ := Manager.exists_of_bind_eq_ok hw
  cases hlooked
  obtain ⟨hrefresh, hdue, rfl⟩ := RevoltTracker.of_update_eq_ok hupdate
  refine h.append rfl hrefresh hdue (fun s hs => ?_) fun hrevolts => ?_
  · split
    · exact Manager.spent_respond hs .revolt
    · exact hs
  · have hrevolts : revolts = true := hrevolts
    rw [if_pos hrevolts]
    exact Manager.spent_startRevolting w.manager

lemma fits_act (h : w.Fits c created seen) {a : Act} (hw : w.act a = .ok w') :
    w'.Fits c created seen := by
  cases a with
  | tell input =>
    obtain ⟨r, hr, htold⟩ := Manager.exists_of_bind_eq_ok hw
    cases htold
    rw [← Manager.respond_of_handle hr]
    exact h.tell input
  | look shouldBuild now => exact h.look hw

/-- What ends a watch: a counter of the manager, or a deadline that is no duration. -/
def Ends (c : RevoltConfig) (times : List Duration) (fault : Fault) : Prop :=
  fault = .counterOverflow ∨
    (fault = .durationOverflow ∧ ∃ now ∈ times, ∃ round, Duration.largest < c.expiry now round)

lemma ends_of_resetDeadline {t : RevoltTracker} {round : ℕ} {now : Duration} {fault : Fault}
    (h : t.resetDeadline round now = .error fault) : Ends t.config [now] fault := by
  rw [RevoltTracker.resetDeadline_eq] at h
  split at h
  · cases h
  · rename_i hlong
    cases h
    exact .inr ⟨rfl, now, List.mem_singleton_self now, round, Nat.lt_of_not_le hlong⟩

lemma ends_of_act (h : w.Fits c created seen) {a : Act} {fault : Fault}
    (hw : w.act a = .error fault) : Ends c a.time?.toList fault := by
  cases a with
  | tell input =>
    have htold : w.manager.handle input = .error fault := by
      cases hr : w.manager.handle input with
      | error fault' => simpa [act, hr, bind, Except.bind] using hw
      | ok r => simp [act, hr, bind, Except.bind, pure, Except.pure] at hw
    exact .inl (Manager.eq_counterOverflow_of_handle htold)
  | look shouldBuild now =>
    have hupdate : w.tracker.update w.manager shouldBuild now = .error fault := by
      cases hr : w.tracker.update w.manager shouldBuild now with
      | error fault' => simpa [act, hr, bind, Except.bind] using hw
      | ok r => simp [act, hr, bind, Except.bind, pure, Except.pure] at hw
    rcases RevoltTracker.of_update_eq_error hupdate with hrefresh | hoverflow
    · rw [RevoltTracker.refresh_eq] at hrefresh
      split at hrefresh
      · have hends := ends_of_resetDeadline hrefresh
        rwa [h.config] at hends
      · cases hrefresh
    · exact .inl hoverflow

lemma Ends.mono {times times' : List Duration} {fault : Fault} (h : Ends c times fault)
    (hsub : ∀ now ∈ times, now ∈ times') : Ends c times' fault :=
  h.imp_right fun ⟨hfault, now, hin, hlong⟩ => ⟨hfault, now, hsub now hin, hlong⟩

lemma fits_foldlM (h : w.Fits c created seen) (acts : List Act) :
    match acts.foldlM act w with
    | .error fault => Ends c (acts.filterMap Act.time?) fault
    | .ok w' => w'.Fits c created seen := by
  induction acts generalizing w with
  | nil => exact h
  | cons a acts ih =>
    rw [List.foldlM_cons]
    cases hw : w.act a with
    | error fault =>
      refine (ends_of_act h hw).mono fun now hin => ?_
      exact List.mem_filterMap.mpr ⟨a, List.mem_cons_self, Option.mem_toList.mp hin⟩
    | ok w₁ =>
      have hrest := ih (fits_act h hw)
      simp only [bind, Except.bind]
      split
      · rename_i fault hfault
        rw [hfault] at hrest
        refine hrest.mono fun now hin => ?_
        obtain ⟨b, hb, hnow⟩ := List.mem_filterMap.mp hin
        exact List.mem_filterMap.mpr ⟨b, List.mem_cons_of_mem _ hb, hnow⟩
      · rename_i w₂ hw₂
        rw [hw₂] at hrest
        exact hrest

/-- Whatever a manager is told and whenever it is looked at: no two looks start a revolt in the same
round of the same height, and a look starts one exactly when none is on and either the primary has
been silent for longer than the fast timeout, if there is one, or the round has had its time. That
begins with the last look, this one included, that found another height or round than the one before
or nothing to build. A watch ends in a fault only where a counter overflows or a deadline would. -/
theorem revolts_once_in_time (c : RevoltConfig) (m : Manager n) (created : Duration)
    (acts : List Act) :
    match run c m created acts with
    | .error fault =>
      fault = .counterOverflow ∨
        (fault = .durationOverflow ∧ ∃ now ∈ created :: acts.filterMap Act.time?, ∃ round,
          Duration.largest < c.expiry now round)
    | .ok w =>
      ((w.looks.filter (·.revolts)).map (·.own.slot)).Nodup ∧
        ∀ before look, before ++ [look] <+: w.looks →
          (look.revolts = true ↔ look.own.revolting = false ∧
            (look.Silence c ∨ look.Expired c created m.own.slot before)) := by
  have hrun : run c m created acts = RevoltTracker.start c m.own created >>= fun tracker =>
    acts.foldlM act { tracker, manager := m } := rfl
  rw [hrun]
  unfold RevoltTracker.start
  cases htracker : RevoltTracker.resetDeadline ⟨c, .zero, m.own.height, m.own.round⟩ m.own.round
    created with
  | error fault =>
    exact (ends_of_resetDeadline htracker).mono (by simp)
  | ok tracker =>
    have hstart : Fits c created m.own.slot { tracker, manager := m } := by
      rw [RevoltTracker.resetDeadline_eq] at htracker
      split at htracker
      · cases htracker
        exact ⟨rfl, rfl, rfl, by simp, by simp, by simp⟩
      · cases htracker
    have hfits := fits_foldlM hstart acts
    simp only [bind, Except.bind]
    split
    · rename_i fault hfault
      rw [hfault] at hfits
      exact hfits.mono fun now hin => List.mem_cons_of_mem _ hin
    · rename_i w hw
      rw [hw] at hfits
      exact ⟨hfits.once, hfits.apt⟩

/-- One who has not heard of the primary revolts after the fast timeout, long before the round has
had its time. -/
theorem revolts_once_in_time_after_silence :
    let c : RevoltConfig := { fastTimeout := some (.ofMillis 1000) }
    let m := Manager.start {} (0 : Fin 4) 5 0
    ∃ w, run c m .zero [.look true (.ofMillis 1001)] = .ok w ∧
      w.looks.map (·.revolts) = [true] := by
  intro c m
  have hfits : c.expiry .zero m.own.round ≤ Duration.largest := by
    have hdelay := c.delay_le m.own.round
    have hroom : 0 + c.timeout.nanos + max c.delayMax.nanos
        (Duration.ofMillis Word.maxUnsigned).nanos ≤ Duration.largest.nanos := by decide
    exact Nat.le_trans (Nat.add_le_add_left hdelay _) hroom
  have hrun : ∃ w look, run c m .zero [.look true (.ofMillis 1001)] = .ok w ∧ w.looks = [look] ∧
      look.own = m.own ∧ look.isPrimary = m.isPrimary ∧
      look.lastHeard = m.heardAt.get m.primary ∧ look.now = .ofMillis 1001 := by
    let t : RevoltTracker := ⟨c, c.expiry .zero m.own.round, m.own.height, m.own.round⟩
    have hstart : RevoltTracker.start c m.own .zero = .ok t := by
      unfold RevoltTracker.start
      rw [RevoltTracker.resetDeadline_eq, if_pos hfits]
    have hrefresh : t.refresh m.own true (.ofMillis 1001) = .ok t := by
      rw [RevoltTracker.refresh_eq, if_neg (by simp [t, NodeStatus.slot])]
    have hroom : (m.respond .revolt).1.own.inRange = true := by decide +kernel
    obtain ⟨m', revolts, hupdate⟩ := RevoltTracker.exists_update hrefresh hroom
    let look : Look :=
      ⟨m.own, m.isPrimary, m.heardAt.get m.primary, true, .ofMillis 1001, revolts⟩
    refine ⟨⟨t, m', [look]⟩, look, ?_, rfl, rfl, rfl, rfl, rfl⟩
    simp only [run, hstart, bind, Except.bind, List.foldlM_cons, List.foldlM_nil, act, hupdate]
    rfl
  obtain ⟨w, look, hw, hlooks, hown, hprimary, hheard, hnow⟩ := hrun
  have hanswers := revolts_once_in_time c m .zero [.look true (.ofMillis 1001)]
  rw [hw] at hanswers
  have hsilence : look.Silence c := by
    refine ⟨.ofMillis 1000, rfl, ?_, ?_, ?_⟩
    · rw [hprimary]
      decide +kernel
    · rw [hown]
      decide +kernel
    · rw [hheard, hnow]
      decide +kernel
  have hrevolts : look.revolts = true := by
    apply (hanswers.2 [] look (hlooks ▸ List.prefix_rfl)).mpr
    rw [hown]
    exact ⟨by decide +kernel, .inl hsilence⟩
  refine ⟨w, hw, ?_⟩
  rw [hlooks, List.map_singleton, hrevolts]

end Watch

end Conclave
