import Pixel845.Json.Util
import Pixel845.Lemmas.JsonPrintbuf
import Pixel845.Theorems.JsonRoundTrip

/-!
# Files

What is written to a file is read from it, however the calls of `write` and `read` cut it. A file that is empty is an exception:
nothing is put into the buffer, and the text that is parsed is what memory had.
-/

namespace Pixel845.Json

variable {ρ : Type}

namespace JsonFilesAux

open JsonRoundTripAux

variable {ops : DoubleOps ρ} {p : Printbuf} {text file left : List UInt8} {rets : List Int} {answers : List (Option Nat)}
  {memory : Image}

/-- A loop that comes to its end has put everything into the file. -/
theorem writeLoop_spec : ∀ {rets : List Int} {left file file' : List UInt8}, writeLoop rets left file = some (0, file') →
      file' = file ++ left := by
  intro rets
  induction rets with
  | nil =>
    intro left file file' hloop
    cases left with
    | nil =>
      simp only [writeLoop, Option.some.injEq, Prod.mk.injEq, true_and] at hloop
      rw [List.append_nil, hloop]
    | cons c left => cases hloop
  | cons ret rets ih =>
    intro left file file' hloop
    cases left with
    | nil =>
      simp only [writeLoop, Option.some.injEq, Prod.mk.injEq, true_and] at hloop
      rw [List.append_nil, hloop]
    | cons c left =>
      rw [writeLoop] at hloop
      split at hloop
      · simp at hloop
      · rw [ih hloop, List.append_assoc, List.take_append_drop]

/-- The whole file is read into the buffer, and a `NUL` stands behind it unless it is empty. -/
theorem readLoop_spec : ∀ {answers : List (Option Nat)} {file : List UInt8} {p : Printbuf} {text : List UInt8}, HoldsText p text →
      ReadsAll answers file → (text ++ file).length ≤ maxText → (text ≠ [] → Terminated p) →
    ∃ p', readLoop answers file p = some (true, p') ∧ HoldsText p' (text ++ file) ∧ (text ++ file ≠ [] → Terminated p') ∧
      (file = [] → p' = p) := by
  intro answers
  induction answers with
  | nil => intro file p text _ hreads; exact absurd hreads.2 (Nat.not_lt_zero _)
  | cons answer answers ih =>
    intro file p text hholds hreads hlen hterm
    cases answer with
    | none => exact absurd rfl (hreads.1 none List.mem_cons_self)
    | some k =>
      cases file with
      | nil => exact ⟨p, rfl, by rwa [List.append_nil], by rwa [List.append_nil], fun _ => rfl⟩
      | cons c left =>
        generalize hn : min (k + 1) jsonFileBufSize = n
        have hpos : 0 < n := by rw [← hn]; exact Nat.lt_min.mpr ⟨Nat.succ_pos k, by decide⟩
        have hsplit : text ++ (c :: left).take n ++ (c :: left).drop n = text ++ c :: left := by
          rw [List.append_assoc, List.take_append_drop]
        have hfit : (text ++ (c :: left).take n).length ≤ maxText := by
          rw [← hsplit, List.length_append] at hlen
          omega
        obtain ⟨p₁, happend, hholds₁, hterm₁⟩ := memappend_spec hholds hfit
        have hreads₁ : ReadsAll answers ((c :: left).drop n) := by
          refine ⟨fun a ha => hreads.1 a (List.mem_cons_of_mem _ ha), ?_⟩
          have hlt := hreads.2
          rw [List.length_drop]
          simp only [List.length_cons] at hlt ⊢
          omega
        obtain ⟨p', hloop, hholds', hterm', -⟩ := ih hholds₁ hreads₁ (by rwa [hsplit]) fun _ => hterm₁
        rw [hsplit] at hholds' hterm'
        exact ⟨p', by rw [readLoop, hn, happend]; exact hloop, hholds', hterm', by simp⟩

/-- The text of a buffer is what is in it up to the first `NUL`. -/
theorem jsonTokenerParse_eq (hholds : HoldsText p text) (hterm : Terminated p) (rounds : Nat) :
    jsonTokenerParse ops rounds p = (jsonTokenerParseVerbose ops rounds (text.takeWhile (· != 0))).join.map Prod.fst := by
  obtain ⟨hroom, hnul⟩ := hterm
  have hstands : p.buf.Has 0 (text ++ [0]) :=
    Image.has_append.mpr ⟨hholds.has, Image.has_cons.mpr ⟨by rw [Nat.zero_add, ← hholds.bpos_eq]; exact hnul, Image.has_nil ..⟩⟩
  have hmem : (0 : UInt8) ∈ p.buf.read 0 p.size := List.mem_map.mpr ⟨p.bpos, List.mem_range.mpr hroom, by rw [Nat.zero_add, hnul]⟩
  rw [jsonTokenerParse, if_pos hmem, hstands.cstr_eq (by rw [Nat.zero_add, ← hholds.bpos_eq]; exact hroom)]

/-- A file that has been written has the text of the value. -/
theorem written_eq (hops : ops.Lawful) {flags : PrintFlags} {v : JsonObject ρ} (hnull : v ≠ .null) (hv : v.WellFormed ops)
    (hlen : (callsText (toJsonString ops flags 0 v)).length ≤ maxText)
    (hwrite : jsonObjectToFileExt ops memory true rets flags v = some (0, some file)) :
    file = callsText (toJsonString ops flags 0 v) := by
  obtain ⟨p, hrun, hcstr⟩ := exists_printed hops memory flags hv hlen
  have hopened : jsonObjectToFileExt ops memory true rets flags v =
      (writeLoop rets ((p.buf.cstr p.size 0).take ((p.buf.cstr p.size 0).length % 4294967296)) []).map fun r =>
      (r.1, some r.2) := by
    cases v with
    | null => exact absurd rfl hnull
    | boolean | int | double | string | array | object =>
      simp only [jsonObjectToFileExt, if_true, hrun, Option.bind_eq_bind, Option.bind_some, Option.map_eq_bind]
      rfl
  rw [hopened, hcstr, Nat.mod_eq_of_lt (hlen.trans_lt (by decide)), List.take_length] at hwrite
  obtain ⟨⟨ret, file'⟩, hloop, heq⟩ := Option.map_eq_some_iff.mp hwrite
  cases heq
  exact writeLoop_spec hloop

/-- What the file has is parsed up to its first `NUL`. -/
theorem fromFile_eq (memory : Image) (hlen : file.length ≤ maxText) (hreads : ReadsAll answers file) (hfile : file ≠ [])
    (rounds : Nat) : jsonObjectFromFile ops rounds memory true answers file =
      (jsonTokenerParseVerbose ops rounds (file.takeWhile (· != 0))).join.map Prod.fst := by
  have hnew : HoldsText (printbufNew memory) [] := ⟨Image.has_nil .., rfl, Nat.zero_le _, by simp [printbufNew]⟩
  obtain ⟨p, hloop, hholds, hterm, -⟩ := readLoop_spec hnew hreads hlen (fun hne => absurd rfl hne)
  rw [List.nil_append] at hholds hterm
  rw [← jsonTokenerParse_eq hholds (hterm hfile)]
  simp only [jsonObjectFromFile, if_true, hloop, Option.bind_eq_bind, Option.bind_some]

/-- Nothing of an empty file is parsed. -/
theorem fromFile_nil (memory : Image) (hreads : ReadsAll answers []) (rounds : Nat) :
    jsonObjectFromFile ops rounds memory true answers [] = jsonTokenerParse ops rounds (printbufNew memory) := by
  have hnew : HoldsText (printbufNew memory) [] := ⟨Image.has_nil .., rfl, Nat.zero_le _, by simp [printbufNew]⟩
  obtain ⟨p, hloop, -, -, hsame⟩ := readLoop_spec hnew hreads (Nat.zero_le _) (fun hne => absurd rfl hne)
  rw [hsame rfl] at hloop
  simp only [jsonObjectFromFile, if_true, hloop, Option.bind_eq_bind, Option.bind_some]

end JsonFilesAux

open JsonFilesAux JsonRoundTripAux

/-- What a file gives depends on the file alone exactly if there is something in it: the text up to its first `NUL` is parsed. -/
theorem from_file_parses_file {ρ : Type} (ops : DoubleOps ρ) (answers : List (Option Nat)) (file : List UInt8)
    (hlen : file.length ≤ maxText) (hreads : ReadsAll answers file) :
    (∀ memory rounds, jsonObjectFromFile ops rounds memory true answers file =
      (jsonTokenerParseVerbose ops rounds (file.takeWhile (· != 0))).join.map Prod.fst) ↔ file ≠ [] := by
  constructor
  · rintro hparses rfl
    have hleft := hparses (Image.ofBytes [91, 93]) 10
    have harray : jsonTokenerParse ops 10 (printbufNew (Image.ofBytes [91, 93])) = some (.array []) := rfl
    have hnull : (jsonTokenerParseVerbose ops 10 []).join.map Prod.fst = some .null := rfl
    rw [fromFile_nil _ hreads, harray, List.takeWhile_nil, hnull] at hleft
    cases hleft
  · intro hfile memory rounds
    exact fromFile_eq memory hlen hreads hfile rounds

/-- The rule for a file that comes in two parts. -/
theorem from_file_parses_file_cut :
    (∀ memory rounds, jsonObjectFromFile smallOps rounds memory true [some 0, some 1, some 9, some 9] (bytesOf "[7]") =
      (jsonTokenerParseVerbose smallOps rounds ((bytesOf "[7]").takeWhile (· != 0))).join.map Prod.fst) ↔ bytesOf "[7]" ≠ [] :=
  from_file_parses_file smallOps [some 0, some 1, some 9, some 9] (bytesOf "[7]") (by decide) ⟨by decide, by decide⟩

/-- A value that is written to a file is the value that is read from it, however `write` and `read` cut the text, exactly if the
default depth is enough for it. -/
theorem file_round_trip {ρ : Type} (ops : DoubleOps ρ) (hops : ops.Lawful) (memory memory' : Image) (flags : PrintFlags)
    (v : JsonObject ρ) (hnull : v ≠ .null) (hv : v.WellFormed ops) (hneg : ¬ v.HasNegInfinity ops)
    (hlen : (callsText (toJsonString ops flags 0 v)).length ≤ maxText)
    (rets : List Int) (answers : List (Option Nat)) (file : List UInt8)
    (hwrite : jsonObjectToFileExt ops memory true rets flags v = some (0, some file)) (hreads : ReadsAll answers file) :
    (∃ n, ∀ rounds ≥ n, jsonObjectFromFile ops rounds memory' true answers file = some v) ↔
      v.depth < jsonTokenerDefaultDepth := by
  obtain rfl := written_eq hops hnull hv hlen hwrite
  have hwrites : Writes (toJsonString ops flags 0 v) := writes_value hops 0 v hv
  have hnoNul := noNul_callsText hwrites
  have hplain : (callsText (toJsonString ops flags 0 v)).takeWhile (· != 0) = callsText (toJsonString ops flags 0 v) :=
    List.takeWhile_eq_self_iff.mpr fun c hc => bne_iff_ne.mpr (hnoNul c hc)
  have hsome : callsText (toJsonString ops flags 0 v) ≠ [] := by
    obtain ⟨c, cs, htext, -⟩ := startsValue_text hops flags hv 0
    rw [htext]
    exact List.cons_ne_nil c cs
  have hparse (rounds : Nat) : jsonObjectFromFile ops rounds memory' true answers (callsText (toJsonString ops flags 0 v)) =
      (jsonTokenerParseVerbose ops rounds (callsText (toJsonString ops flags 0 v))).join.map Prod.fst := by
    rw [fromFile_eq memory' hlen hreads hsome, hplain]
  constructor
  · rintro ⟨n, hn⟩
    have hvalue := hn n (Nat.le_refl n)
    rw [hparse, jsonTokenerParseVerbose] at hvalue
    obtain ⟨⟨ret, err⟩, hpair, rfl⟩ := Option.map_eq_some_iff.mp hvalue
    obtain ⟨r, hr, hmap⟩ := Option.map_eq_some_iff.mp (Option.join_eq_some_iff.mp hpair)
    obtain ⟨q, rfl, hq⟩ := Option.map_eq_some_iff.mp hmap
    by_cases herr : q.tok.err = .success
    · rw [if_pos herr] at hq
      cases hq
      exact ((returned_parse (calm_reachable (by decide) (.new false)) hr).value herr).2
    · rw [if_neg herr] at hq
      cases hq
      exact absurd rfl hnull
  · intro hdepth
    have hends : EndsNumber (0 : UInt8) := ⟨by decide, by decide, by decide⟩
    have hreadsValue : Reads ops false flags v := reads_value hops v hv hneg
    obtain ⟨n, r, hread, hret, herr, -⟩ := parse_of_yields jsonTokenerDefaultDepth false (hlen.trans (by decide)) fun d =>
      hreadsValue 0 (jsonTokenerNewEx jsonTokenerDefaultDepth false) .null d 0 [] rfl hdepth hends
    refine ⟨n, fun rounds hrounds => ?_⟩
    rw [hparse, jsonTokenerParseVerbose, hread rounds hrounds]
    simp [herr, hret]

/-- The rule for an array that comes in small parts. -/
theorem file_round_trip_cut :
    (∃ n, ∀ rounds ≥ n, jsonObjectFromFile smallOps rounds Image.zero true
        [some 0, some 5, some 5, some 5, some 5, some 5, some 5] (bytesOf "[true]") = some (.array [.boolean true])) ↔
      (JsonObject.array [.boolean true] : JsonObject SmallDouble).depth < jsonTokenerDefaultDepth :=
  file_round_trip smallOps smallOps_lawful Image.zero Image.zero ⟨false, false, false⟩ (.array [.boolean true]) (by rintro ⟨⟩)
    ⟨trivial, trivial⟩ (by rintro (h | h) <;> exact h) (by decide) [2, 0, 4]
    [some 0, some 5, some 5, some 5, some 5, some 5, some 5] (bytesOf "[true]") (by decide +kernel) ⟨by decide, by decide⟩

end Pixel845.Json
