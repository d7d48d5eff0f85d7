import Pixel845.Lemmas.JsonTokenerRun

/-!
# Every call ends, within the text

A call of `json_tokener_parse_ex` ends after finitely many rounds, and reads no byte behind its text but for escapes of code units
that are cut: a string must not end with three digits of one, where the `NUL` is taken for the fourth, and a chunk must not end
between a high surrogate with a `\u` and the digits of the low one.
-/

namespace Pixel845.Json

namespace JsonParseAux

variable {ρ : Type} {ops : DoubleOps ρ} {t : Tokener ρ} {s s' : TokRun ρ} {max : Nat} {str : List UInt8}

/-- There is room for four digits. -/
theorem exists_takeHexdigit (c : UInt8) (h : t.stPos < 4) : ∃ t', takeHexdigit t c = some t' ∧ t'.stPos = t.stPos + 1 :=
  ⟨_, if_pos h, rfl⟩

theorem stPos_dropSurrogate (hi : Nat) (t : Tokener ρ) : (dropSurrogate hi t).stPos = t.stPos := by
  unfold dropSurrogate
  split <;> rfl

/-! ## A string -/

/-- Only a `NUL` that is taken for the fourth digit leads behind a string. -/
theorem endsInEscape_of_fault {a ds x : List UInt8} (hi : Nat) (hds : ∀ d ∈ ds, isHexChar d = true)
    (hpos : s.tok.stPos = ds.length) (hlt : ds.length < 4) (hx : ∀ c ∈ x, c ≠ 0)
    (hfault : unicodeLoop false hi s (x ++ [0]) = .fault) : EndsInEscape (a ++ [92, 117] ++ ds ++ x) := by
  induction hn : x.length using Nat.strong_induction_on generalizing a ds x s hi with
  | _ n ih =>
    obtain ⟨c, rest, hstr⟩ : ∃ c rest, x ++ [0] = c :: rest := List.exists_cons_of_ne_nil (by simp)
    obtain ⟨t', htake, hpos'⟩ := exists_takeHexdigit (t := s.tok) c (by omega)
    rw [hstr, unicodeLoop] at hfault
    split at hfault
    · rename_i hhex
      rw [htake] at hfault
      simp only at hfault
      cases x with
      | nil =>
        -- the `NUL` is at hand
        obtain ⟨rfl, rfl⟩ : c = 0 ∧ rest = [] := by simpa [eq_comm] using hstr
        split at hfault
        · rename_i hfour
          have hthree : ds.length = 3 := by omega
          match ds, hthree with
          | [d₁, d₂, d₃], _ =>
            exact ⟨a, d₁, d₂, d₃, by simp, hds d₁ (by simp), hds d₂ (by simp), hds d₃ (by simp)⟩
        · cases hfault
      | cons d x =>
        obtain ⟨rfl, rfl⟩ : d = c ∧ x ++ [0] = rest := by simpa using hstr
        have hd : d ≠ 0 := hx d List.mem_cons_self
        have hx' : ∀ c ∈ x, c ≠ 0 := fun c hc => hx c (List.mem_cons_of_mem _ hc)
        have hlast : (x ++ [0]).getLast? = some 0 := by simp
        split at hfault
        · split at hfault
          · cases hfault
          · split at hfault
            · -- another escape follows
              rename_i rest heq
              split at hfault
              · rw [heq] at hlast
                exact absurd hlast (by decide)
              · rename_i c' rest'
                match x, heq with
                | [_], heq => cases heq
                | y :: z :: x, heq =>
                  obtain ⟨rfl, rfl, hrest⟩ : y = 92 ∧ z = 117 ∧ x ++ [0] = c' :: rest' := by simpa using heq
                  rw [← hrest] at hfault
                  have hx'' : ∀ c ∈ x, c ≠ 0 := fun c hc => hx' c (List.mem_cons_of_mem _ (List.mem_cons_of_mem _ hc))
                  have hnext : EndsInEscape ((a ++ [92, 117] ++ ds ++ [d]) ++ [92, 117] ++ [] ++ x) :=
                    ih _ (by rw [← hn]; simp only [List.length_cons]; omega) _ (List.forall_mem_nil _) (by rfl) (by decide)
                      hx'' hfault rfl
                  simpa using hnext
            · rename_i heq
              exact absurd heq (by simp)
            · rename_i heq
              rw [heq] at hlast
              exact absurd hlast (by decide)
            · cases hfault
        · split at hfault
          · rename_i heq
            exact absurd heq (by simp)
          · rename_i heq
            have hdigits : ∀ y ∈ ds ++ [d], isHexChar y = true := by
              intro y hy
              rcases List.mem_append.mp hy with hy | hy
              · exact hds y hy
              · exact List.mem_singleton.mp hy ▸ hhex
            rw [← heq] at hfault
            have hnext : EndsInEscape (a ++ [92, 117] ++ (ds ++ [d]) ++ x) :=
              ih _ (by rw [← hn]; exact Nat.lt_succ_self _) _ hdigits
                (by simp only [List.length_append, List.length_singleton]; omega)
                (by simp only [List.length_append, List.length_singleton]; omega) hx' hfault rfl
            simpa using hnext
    · cases hfault

/-- Where a run over a string stands: what it has passed ends with the beginning of an escape, if it is in one. -/
structure InString (str : List UInt8) (s : TokRun ρ) (passed left : List UInt8) : Prop where
  str_eq : str = passed ++ left
  left_eq : s.str = left ++ [0]
  backslash : s.tok.state = .stringEscape → [92] <:+ passed
  unit : s.tok.state = .escapeUnicode → s.tok.stPos = 0 ∧ [92, 117] <:+ passed

/-- Within a string each round stays within it. -/
theorem exists_inString {passed left : List UInt8} (h : InString str s passed left) (hs' : s'.Sound ops max)
    (hpasses : Passes s.str s'.str) (hescape : EscapeStep s s') : ∃ passed' left', InString str s' passed' left' := by
  obtain ⟨more, hmore, -⟩ := hpasses
  obtain ⟨left', z, hleft'⟩ : ∃ left' z, s'.str = left' ++ [z] := by
    rcases List.eq_nil_or_concat s'.str with hnil | hconcat
    · exact absurd hs'.head (by simp [hnil])
    · simpa using hconcat
  rw [h.left_eq, hleft', ← List.append_assoc] at hmore
  obtain ⟨hleft, hz⟩ := List.append_inj' hmore rfl
  obtain rfl : 0 = z := by simpa using hz
  refine ⟨passed ++ more, left', by rw [h.str_eq, hleft, List.append_assoc], hleft', fun hst => ?_, fun hst => ?_⟩
  · obtain ⟨before, hbefore⟩ := hescape.backslash hst
    rw [h.left_eq, hleft', hleft] at hbefore
    have hsame : more ++ (left' ++ [0]) = (before ++ [92]) ++ (left' ++ [0]) := by simpa using hbefore
    rw [List.append_cancel_right hsame]
    exact ⟨passed ++ before, by simp⟩
  · obtain ⟨hpos, hbefore, hunit⟩ := hescape.unit hst
    rw [h.left_eq, hleft', hleft] at hunit
    have hsame : more ++ (left' ++ [0]) = [117] ++ (left' ++ [0]) := by simpa using hunit
    rw [List.append_cancel_right hsame]
    obtain ⟨a, rfl⟩ := h.backslash hbefore
    exact ⟨hpos, a, by simp⟩

/-! ## A chunk -/

/-- An escape at the end of a chunk: nothing was read behind it, and digits of the code unit are missing unless the chunk ends
with a `\u`. -/
def CutWell (str : List UInt8) : Outcome ρ → Prop
  | .redo _ | .next _ => True
  | .out s => s.tok.stPos < 4 ∨ [92, 117] <:+ str
  | .fault => False

/-- What is cut well is so with a text in front. -/
theorem CutWell.append {o : Outcome ρ} (h : CutWell str o) (front : List UInt8) : CutWell (front ++ str) o := by
  cases o with
  | redo s => trivial
  | next s => trivial
  | out s => exact h.imp_right fun hsuffix => hsuffix.trans (List.suffix_append front str)
  | fault => exact h

/-- The loop over the digits of an escape is cut well. -/
theorem cutWell_unicodeLoop (hi : Nat) (hpos : s.tok.stPos < 4) (hne : str ≠ []) (hstr : ∀ c ∈ str, c ≠ 0) :
    CutWell str (unicodeLoop true hi s str) := by
  induction hn : str.length using Nat.strong_induction_on generalizing s str hi with
  | _ n ih =>
    obtain ⟨c, rest, rfl⟩ := List.exists_cons_of_ne_nil hne
    obtain ⟨t', htake, hpos'⟩ := exists_takeHexdigit (t := s.tok) c hpos
    have hc : c ≠ 0 := hstr c List.mem_cons_self
    have hrest : ∀ c ∈ rest, c ≠ 0 := fun d hd => hstr d (List.mem_cons_of_mem _ hd)
    rw [unicodeLoop]
    split
    · rw [htake]
      simp only
      split
      · split
        · trivial
        · split
          · rename_i rest
            split
            · exact .inr ⟨[c], rfl⟩
            · rename_i c' rest'
              have hnext :=
                ih (c' :: rest').length (by rw [← hn]; simp only [List.length_cons]; omega) (joinSurrogates hi t').ucsChar
                  (s := { s with tok := { joinSurrogates hi t' with ucsChar := 0, stPos := 0 }, c := c' })
                  (Nat.succ_pos 3) (by simp)
                (fun d hd => hrest d (List.mem_cons_of_mem _ (List.mem_cons_of_mem _ hd))) rfl
              exact hnext.append [c, 92, 117]
          · trivial
          · trivial
          · trivial
      · rename_i hfour
        split
        · refine .inl ?_
          have hdrop := stPos_dropSurrogate hi t'
          simp only [TokRun.map, Tokener.peekErr]
          omega
        · rename_i c' rest'
          have hnext := ih (c' :: rest').length (by rw [← hn]; exact Nat.lt_succ_self _) hi
            (s := { s with tok := t', c := c' }) (by simp only; omega) (by simp) hrest rfl
          exact hnext.append [c]
    · exact .inl hpos

/-! ## Loops -/

/-- Where a run over a string stands at each round. -/
def StringRun (ops : DoubleOps ρ) (max : Nat) (str : List UInt8) (s : TokRun ρ) : Prop :=
  s.Sound ops max ∧ ∃ passed left, InString str s passed left

/-- A round over a string goes on and comes nearer to its end. -/
theorem stringRun_step (h : StringRun ops max str s) (hround : tokRound ops false s = .inl s') :
    StringRun ops max str s' ∧ s'.measure < s.measure := by
  obtain ⟨hsound, passed, left, hin⟩ := h
  obtain ⟨hs', hpasses, hmeasure, hescape⟩ : RoundSound ops max false s (.inl s') := hround ▸ sound_tokRound false hsound
  exact ⟨⟨hs', exists_inString hin hs' hpasses hescape⟩, hmeasure⟩

/-- A round reads nothing behind the string, unless the string ends in an escape. -/
theorem stringRun_fault (h : StringRun ops max str s) (hstr : ∀ c ∈ str, c ≠ 0) (hround : tokRound ops false s = .inr .fault) :
    EndsInEscape str := by
  obtain ⟨hsound, passed, left, hin⟩ := h
  have hfault : RoundSound ops max false s (.inr .fault) := hround ▸ sound_tokRound false hsound
  rcases hfault with ⟨-, hnul⟩ | ⟨hst, hdispatch⟩
  · exact absurd (by simp [hin.left_eq]) hnul
  · obtain ⟨hpos, a, rfl⟩ := hin.unit hst
    rw [dispatch, hst] at hdispatch
    have hleft : ∀ c ∈ left, c ≠ 0 := fun c hc => hstr c (by rw [hin.str_eq]; exact List.mem_append_right _ hc)
    have hloop : unicodeLoop false 0 s (left ++ [0]) = .fault := by rwa [← hin.left_eq]
    have hends : EndsInEscape (a ++ [92, 117] ++ [] ++ left) :=
      endsInEscape_of_fault 0 (List.forall_mem_nil _) hpos (by decide) hleft hloop
    rw [hin.str_eq]
    simpa using hends

/-- Where a run over a chunk stands at each round: digits of a code unit are missing if it is at one. -/
def ChunkRun (ops : DoubleOps ρ) (max : Nat) (str : List UInt8) (s : TokRun ρ) : Prop :=
  s.Sound ops max ∧ s.str <:+ str ∧ (s.tok.state = .escapeUnicode → s.tok.stPos < 4)

/-- A round over a chunk goes on and comes nearer to its end. -/
theorem chunkRun_step (h : ChunkRun ops max str s) (hround : tokRound ops true s = .inl s') :
    ChunkRun ops max str s' ∧ s'.measure < s.measure := by
  obtain ⟨hsound, hsuffix, -⟩ := h
  obtain ⟨hs', ⟨passed, hpassed, -⟩, hmeasure, hescape⟩ : RoundSound ops max true s (.inl s') :=
    hround ▸ sound_tokRound true hsound
  have hsuffix' : s'.str <:+ s.str := ⟨passed, hpassed.symm⟩
  exact ⟨⟨hs', hsuffix'.trans hsuffix, fun hst => by rw [(hescape.unit hst).1]; decide⟩, hmeasure⟩

/-- A run over a chunk ends at `out`, with digits of a code unit missing if it ends at one. -/
theorem chunkRun_end (h : ChunkRun ops max str s) (hstr : ∀ c ∈ str, c ≠ 0) (hcut : ¬ [92, 117] <:+ str) {e : Ending ρ}
    (hround : tokRound ops true s = .inr e) : ∃ s', e = .out s' ∧ ¬ s'.tok.Broken := by
  obtain ⟨hsound, hsuffix, hpos⟩ := h
  have hnul : ∀ c ∈ s.str, c ≠ 0 := fun c hc => hstr c (hsuffix.subset hc)
  have hne : s.str ≠ [] := by
    intro hnil
    have hhead := hsound.head
    rw [hnil] at hhead
    cases hhead
  have hwell : s.tok.state = .escapeUnicode → CutWell s.str (dispatch ops true s) := by
    intro hst
    rw [dispatch, hst]
    exact cutWell_unicodeLoop 0 (hpos hst) hne hnul
  cases e with
  | fault =>
    have hfault : RoundSound ops max true s (.inr .fault) := hround ▸ sound_tokRound true hsound
    rcases hfault with ⟨hchunk, -⟩ | ⟨hst, hdispatch⟩
    · cases hchunk
    · have hcut := hwell hst
      rw [hdispatch] at hcut
      exact hcut.elim
  | out s' =>
    have hout : RoundSound ops max true s (.inr (.out s')) := hround ▸ sound_tokRound true hsound
    refine ⟨s', rfl, fun hbroken => ?_⟩
    have hfour := hbroken.2
    rcases hout.2 hbroken.1 with hzero | ⟨hst, hdispatch⟩
    · omega
    · have hends := hwell hst
      rw [hdispatch] at hends
      rcases hends with hlt | hends
      · omega
      · exact hcut (hends.trans hsuffix)

/-! ## Calls -/

/-- The end of a call breaks no tokener. -/
theorem not_broken_parseOut (h : ¬ s.tok.Broken) : ¬ (parseOut s).tok.Broken := by
  unfold parseOut
  simp only
  split
  · rintro ⟨⟨⟩, -⟩
  · exact h

/-- A call with a chunk ends. -/
theorem exists_parse_chunk (ht : t.Calm ops max) (hgood : ¬ t.Broken) (hstr : ∀ c ∈ str, c ≠ 0) (hcut : ¬ [92, 117] <:+ str) :
    ∃ n r, (∀ rounds ≥ n, jsonTokenerParseEx ops rounds t str true = some (some r)) ∧ ¬ r.tok.Broken := by
  cases str with
  | nil =>
    refine ⟨0, parseOut { tok := ({ t with err := .success } : Tokener ρ).peekErr, obj := .null, c := 1, str := [] },
      fun _ _ => rfl, ?_⟩
    exact not_broken_parseOut hgood
  | cons c rest =>
    have hstart : ChunkRun ops max (c :: rest) (startRun t c rest) :=
      ⟨sound_startRun ht c rest, List.suffix_refl _, fun hst => Nat.lt_of_not_le fun hpos => hgood ⟨hst, hpos⟩⟩
    obtain ⟨n, e, hloop⟩ :=
      exists_loop (P := ChunkRun ops max (c :: rest)) Nat.lt_wfRel.wf TokRun.measure (fun s s' => chunkRun_step) hstart
    obtain ⟨s, hs, hround⟩ :=
      loop_induction (P := ChunkRun ops max (c :: rest)) (fun s s' hs hround => (chunkRun_step hs hround).1) hloop hstart
    obtain ⟨s', rfl, hend⟩ := chunkRun_end hs hstr hcut hround
    refine ⟨n, parseOut s', fun rounds hrounds => ?_, not_broken_parseOut hend⟩
    have hloop' := loop_mono hloop hrounds
    simp only [jsonTokenerParseEx, Bool.not_true, Bool.false_eq_true, false_and, if_false, if_true]
    exact congrArg (Option.map _) hloop'

end JsonParseAux

open JsonParseAux in
/-- A new tokener comes to the end with every string that does not end with three digits of a code unit. -/
theorem string_parse_ends {ρ : Type} (ops : DoubleOps ρ) (depth : Nat) (hdepth : 0 < depth) (strict : Bool) (str : List UInt8)
    (hstr : ∀ c ∈ str, c ≠ 0) (hends : ¬ EndsInEscape str) :
    ∃ n r, ∀ rounds ≥ n, jsonTokenerParseEx ops rounds (jsonTokenerNewEx depth strict) str false = some (some r) := by
  obtain ⟨c, rest, hc⟩ : ∃ c rest, str ++ [0] = c :: rest := List.exists_cons_of_ne_nil (by simp)
  have hstart : StringRun ops depth str (startRun (jsonTokenerNewEx depth strict) c rest) :=
    ⟨sound_startRun (calm_reachable hdepth (.new strict)) c rest, [], str, ⟨rfl, hc.symm, (by rintro ⟨⟩), (by rintro ⟨⟩)⟩⟩
  obtain ⟨n, e, hloop⟩ :=
    exists_loop (P := StringRun ops depth str) Nat.lt_wfRel.wf TokRun.measure (fun s s' => stringRun_step) hstart
  obtain ⟨s, hs, hround⟩ :=
    loop_induction (P := StringRun ops depth str) (fun s s' hs hround => (stringRun_step hs hround).1) hloop hstart
  cases e with
  | fault => exact absurd (stringRun_fault hs hstr hround) hends
  | out s' =>
    by_cases hlong : intMax < str.length
    · refine ⟨0, { ret := .null, tok := { jsonTokenerNewEx depth strict with err := .errorSize }, left := str },
        fun rounds _ => ?_⟩
      simp only [jsonTokenerParseEx, hlong, Bool.not_false, and_self, if_true]
    · refine ⟨n, parseOut s', fun rounds hrounds => ?_⟩
      have hloop' := loop_mono hloop hrounds
      simp only [jsonTokenerParseEx, hlong, and_false, if_false, Bool.false_eq_true, hc]
      exact congrArg (Option.map _) hloop'

/-- The rule for a text with a pair that ends in an escape. -/
theorem string_parse_ends_pair :
    ∃ n r, ∀ rounds ≥ n, jsonTokenerParseEx smallOps rounds (jsonTokenerNewEx 32 false) (bytesOf "[\"\\ud834\\udd1e\", /* \\ud8")
      false = some (some r) := by
  refine string_parse_ends smallOps 32 (by decide) false (bytesOf "[\"\\ud834\\udd1e\", /* \\ud8") (by simp [bytesOf]) ?_
  rintro ⟨a, d₁, d₂, d₃, htext, -⟩
  have hreverse := congrArg List.reverse htext
  simp [bytesOf] at hreverse

/-- With three digits at the end the `NUL` makes a high surrogate, and the code looks behind it. -/
example : (jsonTokenerParseEx smallOps 10 (jsonTokenerNewEx 32 false) (bytesOf "\"\\uD84") false).map Option.isNone = some true :=
  by decide +kernel

open JsonParseAux in
/-- Every run of calls with chunks comes to the end of each, if no chunk ends with the `\u` of an escape. -/
theorem chunks_parse_end {ρ : Type} (ops : DoubleOps ρ) (depth : Nat) (hdepth : 0 < depth) (t : Tokener ρ)
    (ht : TokenerReachable ops depth t) (hgood : ¬ t.Broken) (chunks : List (List UInt8))
    (hnul : ∀ str ∈ chunks, ∀ c ∈ str, c ≠ 0) (hcut : ∀ str ∈ chunks, ¬ [92, 117] <:+ str) :
    ∃ n t', (∀ rounds ≥ n, jsonTokenerFeed ops rounds t chunks = some t') ∧ TokenerReachable ops depth t' ∧ ¬ t'.Broken := by
  induction chunks generalizing t with
  | nil => exact ⟨0, t, fun _ _ => rfl, ht, hgood⟩
  | cons str chunks ih =>
    rw [List.forall_mem_cons] at hnul hcut
    obtain ⟨n, r, hparse, hgood'⟩ := exists_parse_chunk (calm_reachable hdepth ht) hgood hnul.1 hcut.1
    obtain ⟨n', t', hfeed, ht', hend⟩ := ih r.tok (.parse ht (hparse n (Nat.le_refl n))) hgood' hnul.2 hcut.2
    refine ⟨max n n', t', fun rounds hrounds => ?_, ht', hend⟩
    have hfirst := hparse rounds ((Nat.le_max_left n n').trans hrounds)
    have hrest := hfeed rounds ((Nat.le_max_right n n').trans hrounds)
    rw [jsonTokenerFeed, List.foldlM_cons, hfirst]
    exact hrest

/-- The rule for a pair that is cut into chunks. -/
theorem chunks_parse_end_pair :
    ∃ n t', (∀ rounds ≥ n, jsonTokenerFeed smallOps rounds (jsonTokenerNewEx 32 false)
      [bytesOf "\"\\ud8", [], bytesOf "34\\udd1e\\", bytesOf "u00"] =
      some t') ∧ TokenerReachable smallOps 32 t' ∧ ¬ t'.Broken :=
  chunks_parse_end smallOps 32 (by decide) (jsonTokenerNewEx 32 false) (.new false) (by rintro ⟨⟨⟩, -⟩)
    [bytesOf "\"\\ud8", [], bytesOf "34\\udd1e\\", bytesOf "u00"] (by simp [bytesOf]) (by decide)

/-- Between the `\u` and the digits the tokener has no place for them any more. -/
example : (jsonTokenerFeed smallOps 10 (jsonTokenerNewEx 32 false) [bytesOf "\"\\ud834\\u", bytesOf "dd1e\""]).isNone = true := by
  decide +kernel

end Pixel845.Json
