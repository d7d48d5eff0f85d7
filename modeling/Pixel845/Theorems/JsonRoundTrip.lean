import Pixel845.Lemmas.JsonPrintbuf
import Pixel845.Lemmas.JsonReadValue
import Pixel845.Lemmas.JsonTokenerRun

/-!
# What is written is read again

A value that a text can have, without a negative infinity, is written to a print buffer with any flags and read by a new tokener:
the C string in the buffer gives the value back, and the tokener stands at its end, exactly if there are levels enough for it.
-/

namespace Pixel845.Json

namespace JsonRoundTripAux

variable {ρ : Type} {ops : DoubleOps ρ} {flags : PrintFlags} {calls calls' : List PrintbufCall} {call : PrintbufCall}
  {s text : List UInt8}

/-! ## The text that is written -/

/-- A call puts bytes behind the text, and no `NUL`. -/
structure Appends (call : PrintbufCall) : Prop where
  step : ∀ text, textStep text call = fitText (text ++ call.bytes)
  noNul : ∀ c ∈ call.bytes, c ≠ 0

/-- Calls that write one text. -/
def Writes (calls : List PrintbufCall) : Prop := ∀ call ∈ calls, Appends call

/-- Calls one after the other write. -/
theorem Writes.append (h : Writes calls) (h' : Writes calls') : Writes (calls ++ calls') := fun call hcall =>
  (List.mem_append.mp hcall).elim (h call) (h' call)

/-- A call that appends, in front of others that write. -/
theorem Writes.cons (h : Appends call) (h' : Writes calls) : Writes (call :: calls) := List.forall_mem_cons.mpr ⟨h, h'⟩

theorem writes_nil : Writes [] := List.forall_mem_nil _

theorem writes_single (h : Appends call) : Writes [call] := .cons h writes_nil

/-- A text without `NUL` is appended. -/
theorem appends_sprintbuf (h : ∀ c ∈ s, c ≠ 0) : Appends (.sprintbuf s) := ⟨fun _ => rfl, h⟩

/-- Bytes without `NUL` are appended. -/
theorem appends_memappend (h : ∀ c ∈ s, c ≠ 0) : Appends (.memappend s) := ⟨fun _ => rfl, h⟩

/-- Blanks for the indentation are put behind the text. -/
theorem appends_memset (n : Nat) : Appends (.memset none 32 n) where
  step := fun text => by simp [textStep, PrintbufCall.bytes, List.drop_eq_nil_of_le]
  noNul := by
    intro c hc
    obtain rfl : c = 32 := List.eq_of_mem_replicate hc
    decide

/-- Calls that only append make the text longer by what they write. -/
theorem foldlM_textStep (h : Writes calls) (hlen : (text ++ callsText calls).length ≤ maxText) :
    calls.foldlM textStep text = some (text ++ callsText calls) := by
  induction calls generalizing text with
  | nil => simp
  | cons call calls ih =>
    rw [callsText_cons, ← List.append_assoc] at hlen ⊢
    have hfit : (text ++ call.bytes).length ≤ maxText := by
      rw [List.length_append] at hlen
      omega
    have hstep : textStep text call = some (text ++ call.bytes) := by rw [(h call List.mem_cons_self).step, fitText, if_pos hfit]
    rw [List.foldlM_cons, hstep]
    exact ih (fun other hother => h other (List.mem_cons_of_mem _ hother)) hlen

/-- What is written has no `NUL`. -/
theorem noNul_callsText (h : Writes calls) : ∀ c ∈ callsText calls, c ≠ 0 := by
  intro c hc
  obtain ⟨call, hcall, hmem⟩ := List.mem_flatMap.mp hc
  exact (h call hcall).noNul c hmem

theorem writes_flushRun (h : ∀ c ∈ s, c ≠ 0) : Writes (flushRun s) := by
  unfold flushRun
  split
  · exact writes_single (appends_memappend h)
  · exact writes_nil

/-- The call for a byte writes the escape of it; a `NUL` is escaped too. -/
theorem appends_jsonEscapeCall {c : UInt8} (h : jsonEscapeCall c = some call) : Appends call := by
  have hbytes : call.bytes = escapeByte c := by rw [escapeByte, h]
  have hnoNul : ∀ d ∈ call.bytes, d ≠ 0 := by
    rw [hbytes]
    rcases escapeByte_cases c with ⟨hplain, -, -, hne⟩ | ⟨e, he, hesc⟩ | ⟨hlt, hesc⟩
    · simpa [hplain] using hne
    · rw [hesc]
      have hne : e ≠ 0 := by
        rintro rfl
        simp at he
      simpa using hne
    · obtain ⟨⟨-, hhi⟩, ⟨-, hlo⟩, -⟩ := codeUnit_of_lt hlt
      rw [hesc]
      simp [hhi, hlo]
  unfold jsonEscapeCall at h
  split at h
  case h_9 =>
    split at h
    · obtain rfl := Option.some.inj h
      exact appends_sprintbuf hnoNul
    · cases h
  all_goals
    obtain rfl := Option.some.inj h
    exact appends_memappend hnoNul

theorem writes_jsonEscapeLoop (run : List UInt8) (hrun : ∀ c ∈ run, c ≠ 0) (s : List UInt8) : Writes (jsonEscapeLoop run s) := by
  induction s generalizing run with
  | nil => exact writes_flushRun hrun
  | cons c s ih =>
    rw [jsonEscapeLoop]
    cases hcall : jsonEscapeCall c with
    | some call => exact (writes_flushRun hrun).append (.cons (appends_jsonEscapeCall hcall) (ih [] (List.forall_mem_nil _)))
    | none =>
      refine ih (run ++ [c]) fun d hd => ?_
      rcases List.mem_append.mp hd with hd | hd
      · exact hrun d hd
      · obtain rfl := List.mem_singleton.mp hd
        rintro rfl
        cases hcall

theorem writes_jsonEscapeStr (s : List UInt8) : Writes (jsonEscapeStr s) := writes_jsonEscapeLoop [] (List.forall_mem_nil _) s

theorem writes_indent (flags : PrintFlags) (level : Nat) : Writes (indent flags level) := by
  unfold indent
  split
  · exact writes_single (appends_memset _)
  · exact writes_nil

theorem writes_prettyBreak (flags : PrintFlags) : Writes (prettyBreak flags) := by
  unfold prettyBreak
  split
  · exact writes_single (appends_sprintbuf (by simp [bytesOf]))
  · exact writes_nil

theorem writes_childPrefix (flags : PrintFlags) (level : Nat) (hadChildren : Bool) :
    Writes (childPrefix flags level hadChildren) := by
  have hcomma : Writes (if hadChildren then .sprintbuf (bytesOf ",") :: prettyBreak flags else []) := by
    split
    · exact .cons (appends_sprintbuf (by simp [bytesOf])) (writes_prettyBreak flags)
    · exact writes_nil
  have hblank : Writes (if flags.spaced then [.sprintbuf (bytesOf " ")] else []) := by
    split
    · exact writes_single (appends_sprintbuf (by simp [bytesOf]))
    · exact writes_nil
  exact (hcomma.append hblank).append (writes_indent flags level)

theorem writes_closing (flags : PrintFlags) (level : Nat) (hadChildren : Bool) {bracket : String}
    (h : ∀ c ∈ bytesOf bracket, c ≠ 0) : Writes (closing flags level hadChildren bracket) := by
  have hbreak : Writes (if hadChildren then [.sprintbuf (bytesOf "\n")] else []) := by
    split
    · exact writes_single (appends_sprintbuf (by simp [bytesOf]))
    · exact writes_nil
  have hpretty : Writes (if flags.pretty then (if hadChildren then [.sprintbuf (bytesOf "\n")] else []) ++
      indent flags level else []) := by
    split
    · exact hbreak.append (writes_indent flags level)
    · exact writes_nil
  refine hpretty.append (writes_single (appends_sprintbuf ?_))
  split
  · exact List.forall_mem_append.mpr ⟨by simp [bytesOf], h⟩
  · exact h

/-- A value that is no finite number is written as a word. -/
theorem double_calls (hops : ops.Lawful) (flags : PrintFlags) {d : ρ} (h : d = ops.nan ∨ d = ops.infinity ∨ d = ops.negInfinity) :
    ∃ s, jsonObjectDoubleToJsonString ops flags d = [.memappend s] ∧ ∀ c ∈ s, c ≠ 0 := by
  rcases h with rfl | rfl | rfl
  · exact ⟨bytesOf "NaN", by rw [jsonObjectDoubleToJsonString, hops.nan]; rfl, by simp [bytesOf]⟩
  · exact ⟨bytesOf "Infinity",
      by rw [jsonObjectDoubleToJsonString, hops.infinity.1, hops.infinity.2.1, hops.infinity.2.2]; rfl, by simp [bytesOf]⟩
  · exact ⟨bytesOf "-Infinity",
      by rw [jsonObjectDoubleToJsonString, hops.negInfinity.1, hops.negInfinity.2.1, hops.negInfinity.2.2]; rfl,
      by simp [bytesOf]⟩

mutual

/-- A well-formed value is written. -/
theorem writes_value (hops : ops.Lawful) (level : Nat) :
    ∀ v : JsonObject ρ, v.WellFormed ops → Writes (toJsonString ops flags level v)
  | .null, _ => writes_single (appends_sprintbuf (by simp [bytesOf]))
  | .boolean true, _ => writes_single (appends_sprintbuf (by simp [bytesOf]))
  | .boolean false, _ => writes_single (appends_sprintbuf (by simp [bytesOf]))
  | .int _, _ => writes_single (appends_sprintbuf fun _ hc => ne_zero_of_isNumberChar (decimalInt_chars hc).1)
  | .double _ none, h => by
    obtain ⟨s, hcalls, hs⟩ := double_calls hops flags h
    rw [toJsonString, hcalls]
    exact writes_single (appends_memappend hs)
  | .double _ (some _), h => writes_single (appends_memappend fun c hc => ne_zero_of_isNumberChar (DoubleText.chars h c hc))
  | .string s, _ =>
    .cons (appends_sprintbuf (by simp [bytesOf]))
      ((writes_jsonEscapeStr s).append (writes_single (appends_sprintbuf (by simp [bytesOf]))))
  | .array vals, h =>
    .cons (appends_sprintbuf (by simp [bytesOf]))
      (((writes_prettyBreak flags).append (writes_vals hops level false vals h)).append
        (writes_closing flags level _ (by simp [bytesOf])))
  | .object fields, h =>
    .cons (appends_sprintbuf (by simp [bytesOf]))
      (((writes_prettyBreak flags).append (writes_fields hops level false fields h.2)).append
        (writes_closing flags level _ (by simp [bytesOf])))

theorem writes_vals (hops : ops.Lawful) (level : Nat) :
    ∀ (hadChildren : Bool) (vals : List (JsonObject ρ)), WellFormedVals ops vals →
      Writes (arrayChildren ops flags level hadChildren vals)
  | _, [], _ => writes_nil
  | hadChildren, v :: vals, h =>
    ((writes_childPrefix flags (level + 1) hadChildren).append (writes_value hops (level + 1) v h.1)).append
      (writes_vals hops level true vals h.2)

theorem writes_fields (hops : ops.Lawful) (level : Nat) : ∀ (hadChildren : Bool) (fields : List (List UInt8 × JsonObject ρ)),
    WellFormedFields ops fields → Writes (objectChildren ops flags level hadChildren fields)
  | _, [], _ => writes_nil
  | hadChildren, (key, v) :: fields, h => by
    have hcolon : Appends (.sprintbuf (if flags.spaced then bytesOf "\": " else bytesOf "\":")) := by
      split <;> exact appends_sprintbuf (by simp [bytesOf])
    have hrest := (writes_value hops (level + 1) v h.1.2).append (writes_fields hops level true fields h.2)
    exact (writes_childPrefix flags (level + 1) hadChildren).append
      (.cons (appends_sprintbuf (by simp [bytesOf])) ((writes_jsonEscapeStr _).append (.cons hcolon hrest)))

end

/-- The last call that writes a value ends the text with a `NUL`. -/
theorem exists_last (ops : DoubleOps ρ) (flags : PrintFlags) (level : Nat) (v : JsonObject ρ) :
    ∃ calls last, toJsonString ops flags level v = calls ++ [last] ∧ last.terminates = true := by
  cases v with
  | null => exact ⟨[], _, rfl, rfl⟩
  | boolean b => exact ⟨[], _, rfl, rfl⟩
  | int i => exact ⟨[], _, rfl, rfl⟩
  | string s => exact ⟨.sprintbuf (bytesOf "\"") :: jsonEscapeStr s, _, rfl, rfl⟩
  | double d userdata =>
    cases userdata with
    | none =>
      rw [toJsonString, jsonObjectDoubleToJsonString]
      split
      · exact ⟨[], _, rfl, rfl⟩
      · exact ⟨[], _, rfl, rfl⟩
    | some ds => exact ⟨[], _, rfl, rfl⟩
  | array vals =>
    rw [toJsonString, closing, ← List.append_assoc, ← List.cons_append]
    exact ⟨_, _, rfl, rfl⟩
  | object fields =>
    rw [toJsonString, closing, ← List.append_assoc, ← List.cons_append]
    exact ⟨_, _, rfl, rfl⟩

/-! ## The string in the buffer -/

/-- The value is written to a new buffer, and the buffer holds its text as a C string. -/
theorem exists_printed (hops : ops.Lawful) (memory : Image) (flags : PrintFlags) {v : JsonObject ρ} (hv : v.WellFormed ops)
    (hlen : (callsText (toJsonString ops flags 0 v)).length ≤ maxText) :
    ∃ p, (jsonObjectToJsonStringExt ops flags v).foldlM printbufStep (printbufNew memory) = some p ∧
      p.buf.cstr p.size 0 = callsText (toJsonString ops flags 0 v) := by
  have hwrites : Writes (toJsonString ops flags 0 v) := writes_value hops 0 v hv
  have hnew : HoldsText (printbufNew memory) [] := ⟨Image.has_nil .., rfl, Nat.zero_le _, by simp [printbufNew]⟩
  have htext : (jsonObjectToJsonStringExt ops flags v).foldlM textStep [] = some (callsText (toJsonString ops flags 0 v)) := by
    have hfold : (toJsonString ops flags 0 v).foldlM textStep [] = some ([] ++ callsText (toJsonString ops flags 0 v)) :=
      foldlM_textStep hwrites hlen
    exact hfold
  obtain ⟨p, hrun, hholds, hterm⟩ := run_spec hnew _ htext
  obtain ⟨calls, last, hcalls, hlast⟩ := exists_last ops flags 0 v
  obtain ⟨hroom, hnul⟩ : Terminated p :=
    hterm last (by rw [jsonObjectToJsonStringExt, hcalls, ← List.cons_append, List.getLast?_concat]) hlast
  refine ⟨p, hrun, Image.Has.cstr_plain ?_ (noNul_callsText hwrites) (by rw [Nat.zero_add, ← hholds.bpos_eq]; exact hroom)⟩
  refine Image.has_append.mpr ⟨hholds.has, Image.has_cons.mpr ⟨?_, Image.has_nil ..⟩⟩
  rw [Nat.zero_add, ← hholds.bpos_eq]
  exact hnul

end JsonRoundTripAux

open JsonRoundTripAux in
/-- A value that is written and read again is the same value, whatever the flags are, exactly if the tokener is deep
enough for it. -/
theorem json_round_trip {ρ : Type} (ops : DoubleOps ρ) (hops : ops.Lawful) (memory : Image) (flags : PrintFlags) (depth : Nat)
    (hpos : 0 < depth) (strict : Bool) (v : JsonObject ρ) (hv : v.WellFormed ops) (hneg : ¬ v.HasNegInfinity ops)
    (hlen : (callsText (toJsonString ops flags 0 v)).length ≤ maxText) :
    ∃ p, (jsonObjectToJsonStringExt ops flags v).foldlM printbufStep (printbufNew memory) = some p ∧
      ((∃ n r, (∀ rounds ≥ n, jsonTokenerParseEx ops rounds (jsonTokenerNewEx depth strict) (p.buf.cstr p.size 0) false =
        some (some r)) ∧ r.ret = v ∧ r.tok.err = .success ∧ r.left = [0]) ↔ v.depth < depth) := by
  obtain ⟨p, hrun, hcstr⟩ := exists_printed hops memory flags hv hlen
  refine ⟨p, hrun, fun ⟨n, r, hparse, hret, herr, _⟩ => ?_, fun hdepth => ?_⟩
  · have hvalue := (returned_parse (calm_reachable hpos (.new strict)) (hparse n (Nat.le_refl n))).value herr
    exact hret ▸ hvalue.2
  · have hends : EndsNumber (0 : UInt8) := ⟨by decide, by decide, by decide⟩
    have hint : (callsText (toJsonString ops flags 0 v)).length ≤ intMax := hlen.trans (by decide)
    have hreads : Reads ops false flags v := reads_value hops v hv hneg
    obtain ⟨n, r, hparse, hr⟩ := parse_of_yields depth strict hint fun d =>
      hreads 0 (jsonTokenerNewEx depth strict) .null d 0 [] rfl hdepth hends
    exact ⟨n, r, by rwa [hcstr], hr⟩

/-- The rule for an object with an array. -/
theorem json_round_trip_fields :
    ∃ p, (jsonObjectToJsonStringExt smallOps ⟨true, true, true⟩
        (.object [([47, 10], .array [.int (-7), .double .half (some (bytesOf "0.50"))]), ([], .double .nan none)])).foldlM
          printbufStep (printbufNew Image.zero) = some p ∧
      ((∃ n r, (∀ rounds ≥ n, jsonTokenerParseEx smallOps rounds (jsonTokenerNewEx 3 true) (p.buf.cstr p.size 0) false =
        some (some r)) ∧ r.ret = .object [([47, 10], .array [.int (-7), .double .half (some (bytesOf "0.50"))]),
        ([], .double .nan none)] ∧
        r.tok.err = .success ∧ r.left = [0]) ↔
      (JsonObject.object [([47, 10], .array [.int (-7), .double .half (some (bytesOf "0.50"))]), ([], .double .nan none)] :
        JsonObject SmallDouble).depth < 3) := by
  have hhalf : DoubleText smallOps .half (bytesOf "0.50") :=
    ⟨⟨48, bytesOf ".50", rfl, .inl rfl⟩, by simp [bytesOf, isNumberChar], by decide, by decide⟩
  have hvals : WellFormedVals smallOps [.int (-7), .double .half (some (bytesOf "0.50"))] :=
    ⟨⟨by decide, by decide⟩, hhalf, trivial⟩
  exact json_round_trip smallOps smallOps_lawful Image.zero ⟨true, true, true⟩ 3 (by decide) true
    (.object [([47, 10], .array [.int (-7), .double .half (some (bytesOf "0.50"))]), ([], .double .nan none)])
    ⟨by decide, ⟨by simp, hvals⟩, ⟨(List.forall_mem_nil _), .inl rfl⟩, trivial⟩
    (by rintro ((h | h | h) | h | h) <;> first | exact h | cases h)
    (by decide)

end Pixel845.Json
