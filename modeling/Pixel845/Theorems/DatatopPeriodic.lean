import Pixel845.Datatop.Periodic

/-!
# How long a round waits, and when polling ends

A round waits for what is left of the period since the round before, which is negative if polling and writing took longer; a
`select` that fails is taken for one that found input (`waits_well_iff`). The end is computed from the seconds of the first
reading alone, and the time that it is compared with from all of the later ones, so that polling may end up to a second early
(`polls_long_enough_iff`).
-/

namespace Pixel845.Datatop

/-! ## What should hold -/

/-- The readings of the clock. -/
def readings (events : PeriodicEvents) : List Timeval :=
  events.filterMap fun
    | ⟨.gettimeofday, tv⟩ => some tv
    | _ => none

namespace PollRun

variable {pollPer pollTime : Int64}

/-- What happens in a run. -/
def events (run : PollRun pollPer pollTime) : PeriodicEvents :=
  run.startEvents ++ (run.rounds.flatMap (·.events) ++ run.endEvents)

/-- The clock shows normal times and never goes back. -/
structure ClockOk (run : PollRun pollPer pollTime) : Prop where
  normal : ∀ tv ∈ readings run.events, tv.Normal
  sorted : (readings run.events).Pairwise fun a b => a.usecs ≤ b.usecs

end PollRun

namespace PollRound

variable {pollPer : Int64}

/-- The timeouts are valid, and input is read only behind a `select` that found some. -/
def WaitsWell (r : PollRound pollPer) : Prop :=
  (∀ timeout inp, (⟨.select timeout, inp⟩ : Prog.Event PeriodicOp.Res) ∈ r.events → timeout.Normal) ∧
    ∀ pre s post, r.events = pre ++ (⟨.scanf, s⟩ : Prog.Event PeriodicOp.Res) :: post →
      ∃ timeout inp, (⟨.select timeout, inp⟩ : Prog.Event PeriodicOp.Res) ∈ pre ∧ (0 : Int32) < inp

/-- The round begins within the period, by its first reading. -/
def OnTime (r : PollRound pollPer) : Prop :=
  ∀ ftime, (readings r.events).head? = some ftime → ftime.usecs - r.itime.usecs ≤ pollPer.toInt

/-- No `select` fails. -/
def Selects (r : PollRound pollPer) : Prop :=
  ∀ timeout inp, (⟨.select timeout, inp⟩ : Prog.Event PeriodicOp.Res) ∈ r.events → (0 : Int32) ≤ inp

end PollRound

/-- Every wait of the run is with a valid timeout, and every input that it reads was found by a wait. -/
def PollRun.WaitsWell {pollPer pollTime : Int64} (run : PollRun pollPer pollTime) : Prop := ∀ r ∈ run.rounds, r.WaitsWell

namespace PeriodicAux

variable {pollPer pollTime endtime curtime : Int64} {itime : Timeval} {t : PeriodicEvents} {e : RoundEnd}

/-! ### One round -/

/-- An operation that neither waits nor reads input. -/
def quiet : PeriodicOp → Prop
  | .select _ | .scanf => False
  | _ => True

/-- A poll reads no clock but at its start. -/
theorem pollOnce_quiet (itime : Timeval) : (pollOnce itime).Within quiet := by
  refine ⟨trivial, fun tv => ⟨trivial, fun _ => ⟨trivial, fun now => ⟨trivial, fun ok => ?_⟩⟩⟩⟩
  cases ok with
  | false => exact trivial
  | true =>
    refine ⟨trivial, ?_⟩
    intro ok
    cases ok with
    | false => exact trivial
    | true =>
      refine ⟨trivial, ?_⟩
      intro ok
      cases ok <;> exact trivial

/-- A poll that does not end the loop takes `curtime` from a reading of its own and keeps `itime`. -/
theorem pollOnce_next {c : Int64} {i : Timeval} (hx : (pollOnce itime).Exec t (.next c i)) :
    i = itime ∧ ∃ tv ∈ readings t, c = curtimeOf tv := by
  cases hx with
  | op _ tv hx =>
    cases hx with
    | op _ _ hx =>
      refine (?_ : i = itime ∧ c = curtimeOf tv).imp id fun hc => ⟨tv, List.mem_cons_self, hc⟩
      change Prog.Exec (pollWrite (curtimeOf tv) itime) _ _ at hx
      obtain ⟨t₁, t₂, ok, rfl, -, hx⟩ := Prog.exec_bind hx
      cases ok with
      | false => cases hx
      | true =>
        cases hx with
        | op _ ok hx =>
          cases ok with
          | false => cases hx
          | true =>
            cases hx
            exact ⟨rfl, rfl⟩

/-- What the events behind the input of a round are like: none waits or reads input, and if the loop goes on, `curtime` is one of
the readings and `itime` is kept. -/
structure Ends (itime : Timeval) (e : RoundEnd) (t : PeriodicEvents) : Prop where
  quiet : ∀ ev ∈ t, quiet ev.1
  next : ∀ c i, e = .next c i → i = itime ∧ ∃ tv ∈ readings t, c = curtimeOf tv

/-- A quiet event in front. -/
theorem Ends.cons {ev : Prog.Event PeriodicOp.Res} (h : Ends itime e t) (hq : PeriodicAux.quiet ev.1) :
    Ends itime e (ev :: t) := by
  refine ⟨List.forall_mem_cons.mpr ⟨hq, h.quiet⟩, ?_⟩
  intro c i he
  obtain ⟨hi, tv, hmem, hc⟩ := h.next c i he
  refine ⟨hi, tv, ?_, hc⟩
  obtain ⟨x, hx, hread⟩ := List.mem_filterMap.mp hmem
  exact List.mem_filterMap.mpr ⟨x, List.mem_cons_of_mem ev hx, hread⟩

/-- A poll ends its round. -/
theorem pollOnce_ends (hx : (pollOnce itime).Exec t e) : Ends itime e t := by
  refine ⟨hx.within (pollOnce_quiet itime), ?_⟩
  rintro c i rfl
  exact pollOnce_next hx

/-- Each execution ends the round. -/
def EndsRound (itime : Timeval) (p : PeriodicM RoundEnd) : Prop := ∀ t e, p.Exec t e → Ends itime e t

/-- A quiet operation in front. -/
theorem EndsRound.op {o : PeriodicOp} {k : o.Res → PeriodicM RoundEnd} (hq : PeriodicAux.quiet o)
    (hk : ∀ r, EndsRound itime (k r)) : EndsRound itime (.op o k) := by
  intro t e hx
  cases hx with
  | op _ r hx => exact (hk r _ _ hx).cons hq

/-- Either way of a choice ends the round. -/
theorem EndsRound.ite {c : Prop} [Decidable c] {p q : PeriodicM RoundEnd} (hp : EndsRound itime p) (hq : EndsRound itime q) :
    EndsRound itime (if c then p else q) := by
  split
  · exact hp
  · exact hq

/-- To quit ends the round. -/
theorem endsRound_quit (itime : Timeval) : EndsRound itime (.ret .quit) := by
  intro t e hx
  cases hx
  refine ⟨fun ev hev => absurd hev List.not_mem_nil, ?_⟩
  intro c i he
  cases he

/-- A poll ends the round. -/
theorem endsRound_pollOnce (itime : Timeval) : EndsRound itime (pollOnce itime) := fun _ _ hx => pollOnce_ends hx

/-- A command is read first; what follows neither waits nor reads. -/
theorem pollCommand_ends (hx : (pollCommand itime).Exec t e) : ∃ s t', t = ⟨.scanf, s⟩ :: t' ∧ Ends itime e t' := by
  obtain ⟨k, hk, hends⟩ : ∃ k : List UInt8 → PeriodicM RoundEnd, pollCommand itime = .op .scanf k ∧
      ∀ s, EndsRound itime (k s) := by
    refine ⟨_, rfl, ?_⟩
    intro s
    have hlist : EndsRound itime (if s = [108] then do
        ask .printSnapshotDiff
        pollOnce itime
      else pollOnce itime) := .ite (.op trivial fun _ => endsRound_pollOnce itime) (endsRound_pollOnce itime)
    exact .ite (endsRound_quit itime) (.ite (.op trivial fun _ => .op trivial fun _ => hlist) hlist)
  rw [hk] at hx
  cases hx with
  | op _ s hx => exact ⟨s, _, rfl, hends s _ _ hx⟩

/-- What a round does: it reads the clock, waits, reads the clock again, and goes on with a command if `select` did not
return zero. -/
theorem pollRound_cases (hx : (pollRound pollPer itime).Exec t e) :
    ∃ ftime w inp i t', w = waitTime pollPer itime ftime ∧
      t = ⟨.gettimeofday, ftime⟩ :: ⟨.select w, inp⟩ :: ⟨.gettimeofday, i⟩ :: t' ∧
      ((inp = (0 : Int32) ∧ Ends i e t') ∨ (inp ≠ (0 : Int32) ∧ ∃ s t'', t' = ⟨.scanf, s⟩ :: t'' ∧ Ends i e t'')) := by
  have hinput : ∀ (inp : Int32) (i : Timeval) {t' : PeriodicEvents}, Prog.Exec
      (if inp ≠ 0 then pollCommand i else pollOnce i) t' e → (inp = (0 : Int32) ∧ Ends i e t') ∨
      (inp ≠ (0 : Int32) ∧ ∃ s t'', t' = ⟨.scanf, s⟩ :: t'' ∧ Ends i e t'') := by
    intro inp i t' hx
    by_cases h : inp = 0
    · rw [if_neg (not_not.mpr h)] at hx
      exact .inl ⟨h, pollOnce_ends hx⟩
    · rw [if_pos h] at hx
      exact .inr ⟨h, pollCommand_ends hx⟩
  cases hx with
  | op _ ftime hx =>
    cases hx with
    | op _ inp hx =>
      cases hx with
      | op _ i hx => exact ⟨ftime, _, inp, i, _, rfl, rfl, hinput inp i hx⟩

/-! ### What a round waits -/

/-- The time that is left of a period. -/
theorem waitTime_usecs {ftime : Timeval} (hper : 0 ≤ pollPer.toInt) (hi : itime.Normal) (hf : ftime.Normal)
    (hle : itime.usecs ≤ ftime.usecs) : (waitTime pollPer itime ftime).usecs = pollPer.toInt - (ftime.usecs - itime.usecs) ∧
      (waitTime pollPer itime ftime).Reduced := by
  have hlt := Int64.toInt_lt pollPer
  have hsec : (pollPer / 1000000).toInt = pollPer.toInt / 1000000 := by
    rw [Int64.toInt_div, Int.tdiv_eq_ediv_of_nonneg hper]
    exact Int.bmod_eq_of_le (by simp; omega) (by simp; omega)
  have husec : (pollPer % 1000000).toInt = pollPer.toInt % 1000000 := by
    rw [Int64.toInt_mod, Int.tmod_eq_emod_of_nonneg hper]
    rfl
  have hperiod : (⟨pollPer / 1000000, pollPer % 1000000⟩ : Timeval).Reduced ∧
      (⟨pollPer / 1000000, pollPer % 1000000⟩ : Timeval).usecs = pollPer.toInt := by
    refine ⟨⟨?_, ?_⟩, ?_⟩
    · simp only [husec]
      omega
    · simp only [husec]
      omega
    · simp only [Timeval.usecs, hsec, husec]
      omega
  obtain ⟨hused, hreduced⟩ := Timeval.sub_normal hf hi
  have hpoll : (ftime.sub itime).Normal := hreduced.normal_iff.mpr (by omega)
  have hpollsec := hpoll.sec_nonneg
  have hpolllt := Int64.toInt_lt (ftime.sub itime).sec
  obtain ⟨hwait, hwaitreduced⟩ := Timeval.sub_spec hperiod.1 hreduced (by simp only [hsec]; omega) (by simp only [hsec]; omega)
  unfold waitTime
  exact ⟨by rw [hwait, hperiod.2, hused], hwaitreduced⟩

/-- A round whose clock readings are normal and do not go back waits well exactly if it is on time and its `select`
does not fail. -/
theorem waitsWell_iff (r : PollRound pollPer) (hper : 0 ≤ pollPer.toInt) (hi : r.itime.Normal)
    (hclock : ∀ ftime, (readings r.events).head? = some ftime → ftime.Normal ∧ r.itime.usecs ≤ ftime.usecs) :
    r.WaitsWell ↔ r.OnTime ∧ r.Selects := by
  obtain ⟨ftime, w, inp, i, t', hw, ht, hcases⟩ := pollRound_cases r.exec
  have hhead : (readings r.events).head? = some ftime := by
    rw [ht]
    rfl
  obtain ⟨hf, hle⟩ := hclock ftime hhead
  obtain ⟨hwait, hreduced⟩ := waitTime_usecs hper hi hf hle
  rw [← hw] at hwait hreduced
  have hquiet : ∀ ev ∈ t', (∃ s, ev = ⟨.scanf, s⟩ ∧ inp ≠ (0 : Int32)) ∨ quiet ev.1 := by
    intro ev hev
    rcases hcases with ⟨-, hends⟩ | ⟨hne, s, t'', rfl, hends⟩
    · exact .inr (hends.quiet ev hev)
    · rcases List.mem_cons.mp hev with rfl | hev
      · exact .inl ⟨s, rfl, hne⟩
      · exact .inr (hends.quiet ev hev)
  -- there is one `select` in a round
  have hselect : ∀ timeout inp', (⟨.select timeout, inp'⟩ : Prog.Event PeriodicOp.Res) ∈ r.events →
      timeout = w ∧ inp' = inp := by
    intro timeout inp' hmem
    rw [ht] at hmem
    rcases List.mem_cons.mp hmem with h | hmem
    · cases h
    rcases List.mem_cons.mp hmem with h | hmem
    · cases h
      exact ⟨rfl, rfl⟩
    rcases List.mem_cons.mp hmem with h | hmem
    · cases h
    rcases hquiet _ hmem with ⟨s, h, -⟩ | h
    · cases h
    · exact h.elim
  have hown : (⟨.select w, inp⟩ : Prog.Event PeriodicOp.Res) ∈ r.events := by
    rw [ht]
    exact List.mem_cons_of_mem _ List.mem_cons_self
  constructor
  · rintro ⟨hnormal, hread⟩
    refine ⟨?_, ?_⟩
    · intro ftime' hf'
      obtain rfl := Option.some.inj (hhead.symm.trans hf')
      have hnonneg := (hnormal _ _ hown).usecs_nonneg
      omega
    · intro timeout inp' hmem
      obtain ⟨rfl, rfl⟩ := hselect timeout inp' hmem
      rcases hcases with ⟨rfl, -⟩ | ⟨-, s, t'', rfl, -⟩
      · exact Int32.le_refl 0
      · obtain ⟨timeout, inp'', hmem', hpos⟩ := hread [_, _, _] s t'' ht
        obtain ⟨-, rfl⟩ := hselect timeout inp'' (by rw [ht]; exact List.mem_append_left _ hmem')
        exact Int32.le_of_lt hpos
  · rintro ⟨htime, hinp⟩
    refine ⟨?_, ?_⟩
    · intro timeout inp' hmem
      obtain ⟨rfl, -⟩ := hselect timeout inp' hmem
      have hearly := htime ftime hhead
      exact hreduced.normal_iff.mpr (by omega)
    · intro pre s post hsplit
      rw [ht] at hsplit
      match pre, hsplit with
      | [], hsplit => cases (List.cons.inj hsplit).1
      | [_], hsplit => cases (List.cons.inj (List.cons.inj hsplit).2).1
      | [_, _], hsplit => cases (List.cons.inj (List.cons.inj (List.cons.inj hsplit).2).2).1
      | _ :: b :: _ :: pre, hsplit =>
        simp only [List.cons_append, List.cons.injEq] at hsplit
        obtain ⟨-, rfl, -, rfl⟩ := hsplit
        refine ⟨w, inp, List.mem_cons_of_mem _ List.mem_cons_self, ?_⟩
        have hscanf : (⟨.scanf, s⟩ : Prog.Event PeriodicOp.Res) ∈ pre ++ ⟨.scanf, s⟩ :: post :=
          List.mem_append_right pre List.mem_cons_self
        rcases hquiet _ hscanf with ⟨-, -, hne⟩ | h
        · exact Int32.lt_of_le_of_ne (hinp _ _ hown) (Ne.symm hne)
        · exact h.elim

/-! ### Runs -/

/-- The readings of two stretches. -/
theorem readings_append (t t' : PeriodicEvents) : readings (t ++ t') = readings t ++ readings t' := List.filterMap_append

/-- What comes before the loop reads the clock twice, and computes from the first reading. -/
theorem pollStart_some {x : Int64 × Int64 × Timeval} (hx : (pollStart pollTime).Exec t (some x)) :
    ∃ tv, readings t = [tv, x.2.2] ∧ x.1 = curtimeOf tv ∧ x.2.1 = secToUsec tv.sec + secToUsec pollTime := by
  cases hx with
  | op _ tv hx =>
    cases hx with
    | op _ ok hx =>
      cases ok with
      | false => cases hx
      | true =>
        cases hx with
        | op _ ok hx =>
          cases ok with
          | false => cases hx
          | true =>
            cases hx with
            | op _ ok hx =>
              cases ok with
              | false => cases hx
              | true =>
                cases hx with
                | op _ itime hx =>
                  cases hx
                  exact ⟨tv, rfl, rfl, rfl⟩

/-- A round that does not end the loop goes on from readings of its own. -/
theorem pollRound_next {c : Int64} {i : Timeval} (hx : (pollRound pollPer itime).Exec t (.next c i)) :
    i ∈ readings t ∧ ∃ tv ∈ readings t, c = curtimeOf tv := by
  obtain ⟨ftime, w, inp, i', t', -, rfl, hcases⟩ := pollRound_cases hx
  have hsub : ∀ t'', (t'' = t' ∨ ∃ s, t' = ⟨.scanf, s⟩ :: t'') → Ends i' (.next c i) t'' →
      i = i' ∧ ∃ tv ∈ readings t', c = curtimeOf tv := by
    intro t'' ht' hends
    obtain ⟨hi, tv, hmem, hc⟩ := hends.next c i rfl
    refine ⟨hi, tv, ?_, hc⟩
    rcases ht' with rfl | ⟨s, rfl⟩
    · exact hmem
    · exact hmem
  have hnext : i = i' ∧ ∃ tv ∈ readings t', c = curtimeOf tv := by
    rcases hcases with ⟨-, hends⟩ | ⟨-, s, t'', ht', hends⟩
    · exact hsub t' (.inl rfl) hends
    · exact hsub t'' (.inr ⟨s, ht'⟩) hends
  obtain ⟨rfl, tv, hmem, hc⟩ := hnext
  have hreadings : ∀ x : Timeval, x = i ∨ x ∈ readings t' →
      x ∈ readings (⟨.gettimeofday, ftime⟩ :: ⟨.select w, inp⟩ :: ⟨.gettimeofday, i⟩ :: t') := fun x hx =>
    List.mem_cons_of_mem ftime (List.mem_cons.mpr hx)
  exact ⟨hreadings i (.inl rfl), tv, hreadings tv (.inr hmem), hc⟩

/-- Each round counts from a reading that comes before its own. -/
theorem loop_clock {rounds : List (PollRound pollPer)} {last : LoopEnd}
    (h : PollLoop pollPer pollTime endtime curtime itime rounds last) {before : List Timeval} (hmem : itime ∈ before)
    (hnormal : ∀ tv ∈ before ++ readings (rounds.flatMap (·.events)), tv.Normal)
    (hsorted : (before ++ readings (rounds.flatMap (·.events))).Pairwise fun a b => a.usecs ≤ b.usecs) :
    ∀ r ∈ rounds, r.itime.Normal ∧
      ∀ ftime, (readings r.events).head? = some ftime → ftime.Normal ∧ r.itime.usecs ≤ ftime.usecs := by
  -- the first of the rounds, whatever comes behind it
  have hfirst : ∀ (r : PollRound pollPer) (after : List Timeval) {before : List Timeval}, r.itime ∈ before →
      (∀ tv ∈ before ++ (readings r.events ++ after), tv.Normal) →
      ((before ++ (readings r.events ++ after)).Pairwise fun a b => a.usecs ≤ b.usecs) →
      r.itime.Normal ∧ ∀ ftime, (readings r.events).head? = some ftime → ftime.Normal ∧ r.itime.usecs ≤ ftime.usecs := by
    intro r after before hmem hnormal hsorted
    refine ⟨hnormal _ (List.mem_append_left _ hmem), ?_⟩
    intro ftime hf
    have hlater : ftime ∈ readings r.events ++ after := List.mem_append_left after (List.mem_of_mem_head? hf)
    exact ⟨hnormal ftime (List.mem_append_right before hlater), (List.pairwise_append.mp hsorted).2.2 _ hmem _ hlater⟩
  induction h generalizing before with
  | running => exact fun r hr => absurd hr List.not_mem_nil
  | finished => exact fun r hr => absurd hr List.not_mem_nil
  | next _ r hr _ ih =>
    rw [List.flatMap_cons, readings_append] at hnormal hsorted
    intro r' hr'
    rcases List.mem_cons.mp hr' with rfl | hr'
    · exact hfirst r' _ hmem hnormal hsorted
    · rw [← List.append_assoc] at hnormal hsorted
      have hexec := r.exec
      rw [hr] at hexec
      exact ih (List.mem_append_right before (pollRound_next hexec).1) hnormal hsorted r' hr'
  | quit _ r =>
    rw [List.flatMap_cons, readings_append] at hnormal hsorted
    intro r' hr'
    obtain rfl := List.mem_singleton.mp hr'
    exact hfirst r' _ hmem hnormal hsorted
  | fileError _ r =>
    rw [List.flatMap_cons, readings_append] at hnormal hsorted
    intro r' hr'
    obtain rfl := List.mem_singleton.mp hr'
    exact hfirst r' _ hmem hnormal hsorted

/-! ### Runs to try -/

/-- A round in which no input was found and nothing failed. -/
def sampleRound (pollPer : Int64) (itime ftime i tv now : Timeval) : PollRound pollPer where
  itime := itime
  events :=
    [⟨.gettimeofday, ftime⟩, ⟨.select (waitTime pollPer itime ftime), (0 : Int32)⟩, ⟨.gettimeofday, i⟩, ⟨.gettimeofday, tv⟩,
      ⟨.poll, ()⟩, ⟨.gettimeofday, now⟩, ⟨.fprintf (padLeft 32 10 (decimalInt now.sec.toInt)), true⟩,
      ⟨.fprintf ([46] ++ padLeft 48 6 (decimalInt now.usec.toInt) ++ [44]), true⟩, ⟨.writePollingdataCsv, true⟩]
  result := .next (curtimeOf tv) i
  exec := .op _ _ (.op _ _ (.op _ _ (.op _ _ (.op _ _ (.op _ _ (.op _ _ (.op _ _ (.op _ _ (.ret _)))))))))

/-- A round in which `select` did not return zero, and `q` is read. -/
def quitRound (pollPer : Int64) (itime ftime i : Timeval) (inp : Int32) (h : inp ≠ 0) : PollRound pollPer where
  itime := itime
  events := [⟨.gettimeofday, ftime⟩, ⟨.select (waitTime pollPer itime ftime), inp⟩, ⟨.gettimeofday, i⟩, ⟨.scanf, [113]⟩]
  result := .quit
  exec := by
    refine .op _ _ (.op _ _ (.op _ _ ?_))
    change Prog.Exec (if inp ≠ 0 then pollCommand i else pollOnce i) _ _
    rw [if_pos h]
    exact .op _ _ (.ret _)

/-- A round that polls waits for its time. -/
theorem sampleRound_selects (itime ftime i tv now : Timeval) : (sampleRound pollPer itime ftime i tv now).Selects := by
  intro timeout inp h
  simp only [sampleRound, List.mem_cons, List.not_mem_nil, or_false] at h
  rcases h with h | h | h | h | h | h | h | h | h
  case inr.inl =>
    cases h
    exact Int32.le_refl 0
  all_goals cases h

/-- A round that quits has been told to. -/
theorem quitRound_selects (itime ftime i : Timeval) {inp : Int32} (hinp : inp ≠ 0) (hle : 0 ≤ inp) :
    (quitRound pollPer itime ftime i inp hinp).Selects := by
  intro timeout inp' h
  simp only [quitRound, List.mem_cons, List.not_mem_nil, or_false] at h
  rcases h with h | h | h | h
  case inr.inl =>
    cases h
    exact hle
  all_goals cases h

/-- The events before the loop, if nothing failed. -/
def sampleStart (tv itime : Timeval) : PeriodicEvents :=
  [⟨.gettimeofday, tv⟩, ⟨.fprintf timeHeader, true⟩, ⟨.printDpgNamesCsv, true⟩, ⟨.fprintf [10], true⟩, ⟨.gettimeofday, itime⟩]

/-- A start that reads the clock twice. -/
theorem sampleStart_exec (pollTime : Int64) (tv itime : Timeval) :
    (pollStart pollTime).Exec (sampleStart tv itime) (some (curtimeOf tv, secToUsec tv.sec + secToUsec pollTime, itime)) :=
  .op _ _ (.op _ _ (.op _ _ (.op _ _ (.op _ _ (.ret _)))))

end PeriodicAux

open PeriodicAux

/-! ## Waiting -/

/-- On a clock that does not go back, each timeout is valid, and input is read only behind a `select` that found some, exactly if
each round begins within the period and no `select` fails. -/
theorem waits_well_iff {pollPer pollTime : Int64} (run : PollRun pollPer pollTime) (hper : 200000 ≤ pollPer)
    (hclock : run.ClockOk) : run.WaitsWell ↔ ∀ r ∈ run.rounds, r.OnTime ∧ r.Selects := by
  have hnonneg : 0 ≤ pollPer.toInt := by
    have h := Int64.le_iff_toInt_le.mp hper
    have h0 : (200000 : Int64).toInt = 200000 := rfl
    omega
  obtain ⟨tv, hreadings, -, -⟩ := pollStart_some run.started
  have hevents : readings run.events =
      readings run.startEvents ++ (readings (run.rounds.flatMap (·.events)) ++ readings run.endEvents) := by
    unfold PollRun.events
    rw [readings_append, readings_append]
  have hnormal := hclock.normal
  have hsorted := hclock.sorted
  rw [hevents, ← List.append_assoc] at hnormal hsorted
  have hitime : run.itime ∈ readings run.startEvents := by
    rw [hreadings]
    exact List.mem_cons_of_mem tv List.mem_cons_self
  have hround :=
    loop_clock run.loop hitime (fun x hx => hnormal x (List.mem_append_left _ hx)) (List.pairwise_append.mp hsorted).1
  refine forall₂_congr ?_
  intro r hr
  obtain ⟨hi, hf⟩ := hround r hr
  exact waitsWell_iff r hnonneg hi hf

/-- A run with a period of a second: in the first round nothing is found; the second begins `ftime`, and its `select`
gives `inp`. -/
def quitRun (ftime : Timeval) (inp : Int32) (h : inp ≠ 0) : PollRun 1000000 10 where
  startEvents := sampleStart ⟨100, 0⟩ ⟨100, 0⟩
  curtime := curtimeOf ⟨100, 0⟩
  endtime := secToUsec 100 + secToUsec 10
  itime := ⟨100, 0⟩
  started := sampleStart_exec 10 ⟨100, 0⟩ ⟨100, 0⟩
  rounds := [sampleRound 1000000 ⟨100, 0⟩ ⟨100, 0⟩ ⟨101, 0⟩ ⟨101, 0⟩ ⟨101, 0⟩, quitRound 1000000 ⟨101, 0⟩ ftime ⟨103, 0⟩ inp h]
  last := .quit
  loop := .next (.inl (by decide)) (sampleRound 1000000 ⟨100, 0⟩ ⟨100, 0⟩ ⟨101, 0⟩ ⟨101, 0⟩ ⟨101, 0⟩) rfl
    (.quit (.inl (by decide)) (quitRound 1000000 ⟨101, 0⟩ ftime ⟨103, 0⟩ inp h) rfl)
  endEvents := []
  ended := .ret ()

/-- The readings of the run. -/
theorem quitRun_readings (ftime : Timeval) (inp : Int32) (h : inp ≠ 0) : readings (quitRun ftime inp h).events =
    [⟨100, 0⟩, ⟨100, 0⟩, ⟨100, 0⟩, ⟨101, 0⟩, ⟨101, 0⟩, ⟨101, 0⟩, ftime, ⟨103, 0⟩] := rfl

/-- A run that waits a second, and then half a second until `q` is typed. -/
theorem waits_well_prompt : (quitRun ⟨101, 500000⟩ 1 (by decide)).WaitsWell := by
  have hclock : (quitRun ⟨101, 500000⟩ 1 (by decide)).ClockOk := by
    refine ⟨?_, ?_⟩
    · rw [quitRun_readings]
      decide
    · rw [quitRun_readings]
      decide
  refine (waits_well_iff (quitRun ⟨101, 500000⟩ 1 (by decide)) (by decide) hclock).mpr ?_
  intro r hr
  rcases List.mem_cons.mp hr with rfl | hr
  · refine ⟨?_, sampleRound_selects ⟨100, 0⟩ ⟨100, 0⟩ ⟨101, 0⟩ ⟨101, 0⟩ ⟨101, 0⟩⟩
    intro f hf
    obtain rfl := Option.some.inj hf
    decide
  · obtain rfl := List.mem_singleton.mp hr
    refine ⟨?_, quitRound_selects ⟨101, 0⟩ ⟨101, 500000⟩ ⟨103, 0⟩ (by decide) (by decide)⟩
    intro f hf
    obtain rfl := Option.some.inj hf
    decide

/-- Polling and writing took two seconds, so that the timeout of the second round is minus one second, and `select` fails. -/
theorem not_waits_well :
    ¬∀ (pollPer pollTime : Int64) (run : PollRun pollPer pollTime), 200000 ≤ pollPer → run.ClockOk → run.WaitsWell := by
  intro h
  have hclock : (quitRun ⟨103, 0⟩ (-1) (by decide)).ClockOk := by
    refine ⟨?_, ?_⟩
    · rw [quitRun_readings]
      decide
    · rw [quitRun_readings]
      decide
  have hwell := h 1000000 10 (quitRun ⟨103, 0⟩ (-1) (by decide)) (by decide) hclock _ (List.mem_cons_of_mem _ List.mem_cons_self)
  have hnormal := hwell.1 _ _ (List.mem_cons_of_mem _ List.mem_cons_self)
  exact absurd hnormal.sec_nonneg (by decide)

/-! ## How long it polls -/

/-- The computation of `endtime` does not overflow. -/
structure EndtimeExact (start : Timeval) (pollTime : Int64) : Prop where
  start_eq : (secToUsec start.sec).toInt = start.sec.toInt * 1000000
  pollTime_eq : (secToUsec pollTime).toInt = pollTime.toInt * 1000000
  endtime_eq : (secToUsec start.sec + secToUsec pollTime).toInt = (start.sec.toInt + pollTime.toInt) * 1000000

/-- Polling from `start` on lasts as long as requested: in each run that leaves the loop by its condition, a time was requested,
and the clock has advanced by it. -/
structure Lasts (start : Timeval) (pollTime : Int64) : Prop where
  exact : EndtimeExact start pollTime
  lasts : ∀ (pollPer : Int64) (run : PollRun pollPer pollTime), 200000 ≤ pollPer → (readings run.startEvents).head? = some start →
    run.ClockOk → run.last = .finished → pollTime ≠ pollNotSpecified ∧
      ∃ tv, (readings run.events).getLast? = some tv ∧ start.usecs + pollTime.toInt * 1000000 ≤ tv.usecs

namespace PeriodicAux

/-- Seconds as microseconds, wrapped. -/
theorem secToUsec_toInt (x : Int64) : (secToUsec x).toInt = (x.toInt * 1000000).bmod (2 ^ 64) := Int64.toInt_mul x 1000000

/-- Wrapping does not make a time that is not negative larger. -/
theorem curtimeOf_le {tv : Timeval} (h : tv.Normal) : (curtimeOf tv).toInt ≤ tv.usecs := by
  have hu := h.usecs_nonneg
  have heq : (curtimeOf tv).toInt = tv.usecs.bmod (2 ^ 64) := by
    unfold curtimeOf Timeval.usecs
    rw [Int64.toInt_add, secToUsec_toInt, Int.bmod_add_bmod]
  have hmod := Int.bmod_eq_emod tv.usecs (2 ^ 64)
  rw [heq]
  split at hmod <;> omega

/-- A time whose microseconds fit is held exactly. -/
theorem curtimeOf_eq {tv : Timeval} (h : tv.Normal) (hlt : tv.usecs < 2 ^ 63) : (curtimeOf tv).toInt = tv.usecs := by
  have hu := h.usecs_nonneg
  unfold curtimeOf
  rw [Int64.toInt_add, secToUsec_toInt, Int.bmod_add_bmod]
  exact Int.bmod_eq_of_le (by unfold Timeval.usecs at hu; omega) (by unfold Timeval.usecs at hlt; omega)

/-- The computation of `endtime` is exact exactly if the end fits. -/
theorem endtimeExact_iff {start : Timeval} (hs : start.Normal) (hp : 0 < pollTime ∨ pollTime = pollNotSpecified) :
    EndtimeExact start pollTime ↔ (start.sec.toInt + max pollTime.toInt 0) * 1000000 < 2 ^ 63 := by
  have hs0 := hs.sec_nonneg
  have hp0 : -1 ≤ pollTime.toInt ∧ (pollTime.toInt = -1 ∨ 0 < pollTime.toInt) := by
    rcases hp with hp | rfl
    · have hpos : 0 < pollTime.toInt := Int64.lt_iff_toInt_lt.mp hp
      exact ⟨by omega, .inr hpos⟩
    · decide
  obtain ⟨hlo, hcases⟩ := hp0
  constructor
  · rintro ⟨hstart, -, hend⟩
    have h1 := Int64.toInt_lt (secToUsec start.sec)
    have h2 := Int64.toInt_lt (secToUsec start.sec + secToUsec pollTime)
    rcases hcases with hcases | hcases
    · omega
    · omega
  · intro hlt
    have hstart : (secToUsec start.sec).toInt = start.sec.toInt * 1000000 := by
      rw [secToUsec_toInt]
      exact Int.bmod_eq_of_le (by omega) (by omega)
    have hpoll : (secToUsec pollTime).toInt = pollTime.toInt * 1000000 := by
      rw [secToUsec_toInt]
      exact Int.bmod_eq_of_le (by omega) (by omega)
    refine ⟨hstart, hpoll, ?_⟩
    rw [Int64.toInt_add, hstart, hpoll, ← Int.add_mul]
    exact Int.bmod_eq_of_le (by omega) (by omega)

/-- A loop that ended by its condition ended with a reading that is not before the end. -/
theorem loop_finished {rounds : List (PollRound pollPer)} {last : LoopEnd}
    (h : PollLoop pollPer pollTime endtime curtime itime rounds last) (hlast : last = .finished) {before : List Timeval}
    (hmem : ∃ tv ∈ before, curtime = curtimeOf tv) :
    pollTime ≠ pollNotSpecified ∧ ∃ tv ∈ before ++ readings (rounds.flatMap (·.events)), endtime ≤ curtimeOf tv := by
  induction h generalizing before with
  | running => cases hlast
  | finished _ h =>
    obtain ⟨hnotlt, hspecified⟩ := not_or.mp h
    obtain ⟨tv, htv, rfl⟩ := hmem
    exact ⟨hspecified, tv, List.mem_append_left _ htv, Int64.not_lt.mp hnotlt⟩
  | next _ r hr _ ih =>
    have hexec := r.exec
    rw [hr] at hexec
    obtain ⟨-, tv, htv, hc⟩ := pollRound_next hexec
    rw [List.flatMap_cons, readings_append, ← List.append_assoc]
    exact ih hlast ⟨tv, List.mem_append_right before htv, hc⟩
  | quit => cases hlast
  | fileError => cases hlast

/-- A clock that does not go back shows the latest time last. -/
theorem last_reading {l : List Timeval} {tv : Timeval} (hsorted : l.Pairwise fun a b => a.usecs ≤ b.usecs) (htv : tv ∈ l) :
    ∃ x, l.getLast? = some x ∧ tv.usecs ≤ x.usecs := by
  have hne : l ≠ [] := List.ne_nil_of_mem htv
  refine ⟨l.getLast hne, List.getLast?_eq_some_getLast hne, ?_⟩
  have hsplit := List.dropLast_concat_getLast hne
  rw [← hsplit] at hsorted htv
  rcases List.mem_append.mp htv with htv | htv
  · exact (List.pairwise_append.mp hsorted).2.2 tv htv _ List.mem_cons_self
  · rw [List.mem_singleton.mp htv]

/-- A run that leaves its loop by the condition requested a time, and read the clock when it was past the end. -/
theorem run_finished (run : PollRun pollPer pollTime) (hclock : run.ClockOk) (hlast : run.last = .finished) {start : Timeval}
    (hstart : (readings run.startEvents).head? = some start) :
    pollTime ≠ pollNotSpecified ∧ ∃ tv, (readings run.events).getLast? = some tv ∧
      (secToUsec start.sec + secToUsec pollTime).toInt ≤ tv.usecs := by
  obtain ⟨first, hreadings, hcurtime, hendtime⟩ := pollStart_some run.started
  rw [hreadings] at hstart
  obtain rfl := Option.some.inj hstart
  have hmem : ∃ tv ∈ readings run.startEvents, run.curtime = curtimeOf tv := by
    rw [hreadings]
    exact ⟨first, List.mem_cons_self, hcurtime⟩
  obtain ⟨hspecified, tv, htv, hle⟩ := loop_finished run.loop hlast hmem
  have hevents : tv ∈ readings run.events := by
    unfold PollRun.events
    rw [readings_append, readings_append, ← List.append_assoc]
    exact List.mem_append_left _ htv
  obtain ⟨x, hx, hlex⟩ := last_reading hclock.sorted hevents
  have hcur := curtimeOf_le (hclock.normal tv hevents)
  have hend := Int64.le_iff_toInt_le.mp hle
  simp only at hendtime
  rw [hendtime] at hend
  exact ⟨hspecified, x, hx, by omega⟩

/-- A run that begins at `start` and samples once, when the second of its end begins. -/
def sampleRun (start : Timeval) (pollTime : Int64) (hon : curtimeOf start < secToUsec start.sec + secToUsec pollTime)
    (hend : ¬PollsOn pollTime (secToUsec start.sec + secToUsec pollTime) (curtimeOf ⟨start.sec + pollTime, 0⟩)) :
    PollRun 1000000 pollTime where
  startEvents := sampleStart start start
  curtime := curtimeOf start
  endtime := secToUsec start.sec + secToUsec pollTime
  itime := start
  started := sampleStart_exec pollTime start start
  rounds := [sampleRound 1000000 start start start ⟨start.sec + pollTime, 0⟩ ⟨start.sec + pollTime, 0⟩]
  last := .finished
  loop := .next (.inl hon) (sampleRound 1000000 start start start ⟨start.sec + pollTime, 0⟩ ⟨start.sec + pollTime, 0⟩) rfl
    (.finished start hend)
  endEvents := [⟨.printSnapshotDiff, ()⟩]
  ended := .op _ _ (.ret ())

/-- A time that was requested and lasts was requested at the beginning of a second. -/
theorem usec_of_lasts {start : Timeval} (h : Lasts start pollTime) (hs : start.Normal) (hp : 0 < pollTime) : start.usec = 0 := by
  have hpos : 0 < pollTime.toInt := Int64.lt_iff_toInt_lt.mp hp
  have hs0 := hs.sec_nonneg
  have hu0 := hs.usec_nonneg
  have hu1 := hs.usec_lt
  have hlt := (endtimeExact_iff hs (.inl hp)).mp h.exact
  have hsum : (start.sec + pollTime).toInt = start.sec.toInt + pollTime.toInt := by
    rw [Int64.toInt_add]
    exact Int.bmod_eq_of_le (by omega) (by omega)
  have hnormal : (⟨start.sec + pollTime, 0⟩ : Timeval).Normal :=
    ⟨⟨Int.le_refl 0, Int.zero_lt_one.trans (by decide)⟩, by simp only [hsum]; omega⟩
  have hendusecs : (⟨start.sec + pollTime, 0⟩ : Timeval).usecs = (start.sec.toInt + pollTime.toInt) * 1000000 := by
    unfold Timeval.usecs
    rw [hsum]
    exact Int.add_zero _
  have hle : start.usecs ≤ (⟨start.sec + pollTime, 0⟩ : Timeval).usecs := by
    rw [hendusecs]
    unfold Timeval.usecs
    omega
  have hon : curtimeOf start < secToUsec start.sec + secToUsec pollTime := by
    rw [Int64.lt_iff_toInt_lt, h.exact.endtime_eq, curtimeOf_eq hs (by omega)]
    unfold Timeval.usecs
    omega
  have hend : ¬PollsOn pollTime (secToUsec start.sec + secToUsec pollTime) (curtimeOf ⟨start.sec + pollTime, 0⟩) := by
    rintro (hmore | rfl)
    · rw [Int64.lt_iff_toInt_lt, h.exact.endtime_eq, curtimeOf_eq hnormal (by omega), hendusecs] at hmore
      omega
    · exact absurd hp (by decide)
  have hreadings : readings (sampleRun start pollTime hon hend).events =
      [start, start, start, start, ⟨start.sec + pollTime, 0⟩, ⟨start.sec + pollTime, 0⟩] := rfl
  have hclock : (sampleRun start pollTime hon hend).ClockOk := by
    refine ⟨?_, ?_⟩
    · rw [hreadings]
      simp [hs, hnormal]
    · rw [hreadings]
      simp [hle]
  obtain ⟨-, tv, hlast, hlong⟩ := h.lasts 1000000 (sampleRun start pollTime hon hend) (by decide) rfl hclock rfl
  have htv : ⟨start.sec + pollTime, 0⟩ = tv := by
    rw [hreadings] at hlast
    exact Option.some.inj hlast
  rw [← htv, hendusecs] at hlong
  unfold Timeval.usecs at hlong
  exact Int64.toInt_inj.mp (by simp only [Int64.toInt_zero]; omega)

end PeriodicAux

open PeriodicAux

/-- Polling lasts as long as requested, on every clock that does not go back, exactly if the end fits in 64 bits and either no
time was requested or the first reading was at the beginning of a second. -/
theorem polls_long_enough_iff {start : Timeval} {pollTime : Int64} (hs : start.Normal)
    (hp : 0 < pollTime ∨ pollTime = pollNotSpecified) :
    Lasts start pollTime ↔ (start.sec.toInt + max pollTime.toInt 0) * 1000000 < 2 ^ 63 ∧
      (pollTime = pollNotSpecified ∨ start.usec = 0) := by
  constructor
  · intro h
    refine ⟨(endtimeExact_iff hs hp).mp h.exact, ?_⟩
    rcases hp with hp | hp
    · exact .inr (usec_of_lasts h hs hp)
    · exact .inl hp
  · rintro ⟨hlt, husec⟩
    have hexact := (endtimeExact_iff hs hp).mpr hlt
    refine ⟨hexact, ?_⟩
    intro pollPer run _ hstart hclock hlast
    obtain ⟨hspecified, tv, htv, hle⟩ := run_finished run hclock hlast hstart
    refine ⟨hspecified, tv, htv, ?_⟩
    have hzero := husec.resolve_left hspecified
    rw [hexact.endtime_eq] at hle
    unfold Timeval.usecs at hle ⊢
    rw [hzero, Int64.toInt_zero]
    omega

/-- The rule for a minute. -/
theorem polls_long_enough_minute : Lasts ⟨1000, 0⟩ 60 :=
  (polls_long_enough_iff (by decide) (.inl (by decide))).mpr ⟨by decide, .inr rfl⟩

/-- A second that is requested in the middle of a second may end half a second later. -/
theorem not_polls_long_enough :
    ¬∀ start pollTime, start.Normal → (0 < pollTime ∨ pollTime = pollNotSpecified) → Lasts start pollTime := by
  intro h
  have hlasts := h ⟨1000, 500000⟩ 1 (by decide) (.inl (by decide))
  exact absurd (usec_of_lasts hlasts (by decide) (by decide)) (by decide)

end Pixel845.Datatop
