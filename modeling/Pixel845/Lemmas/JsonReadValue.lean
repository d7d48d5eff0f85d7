import Pixel845.Lemmas.JsonRead

/-!
# Reading a value that was written

By induction on the value: `Reads` says that the tokener reads the text of a value, at whatever level it was written, and finds
the value. For an array and an object this is an induction on the children, each of which is read in a level of its own.
-/

namespace Pixel845.Json

variable {ρ : Type} {ops : DoubleOps ρ} {chunk : Bool} {flags : PrintFlags} {t t' : Tokener ρ} {obj v : JsonObject ρ}
  {c d x y : UInt8} {rest more ws ws' : List UInt8} {level : Nat}

/-- The text of a value is read as the value. -/
def Reads (ops : DoubleOps ρ) (chunk : Bool) (flags : PrintFlags) (v : JsonObject ρ) : Prop :=
  ∀ (level : Nat) (t : Tokener ρ) (obj : JsonObject ρ) (d x : UInt8) (more : List UInt8), t.level = .fresh →
    v.depth + t.depth < t.maxDepth → EndsNumber x →
    Yields ops chunk ⟨t, obj, d, callsText (toJsonString ops flags level v) ++ x :: more⟩ v x more

/-- The first byte of a value. -/
structure StartsValue (c : UInt8) : Prop where
  notSpace : isSpace c = false
  ne_slash : c ≠ 47
  ne_bracket : c ≠ 93
  ne_brace : c ≠ 125

/-- A number starts a value. -/
theorem startsValue_of_number (h : isDigit c = true ∨ c = 45) : StartsValue c := by
  rcases h with h | rfl
  · obtain ⟨k, hk, rfl⟩ := exists_of_isDigit h
    interval_cases k <;> exact ⟨rfl, by decide, by decide, by decide⟩
  · exact ⟨rfl, by decide, by decide, by decide⟩

/-- A space ends a number. -/
theorem endsNumber_of_isSpace (h : isSpace x = true) : EndsNumber x := by
  have hne : ∀ d, isSpace d = false → x ≠ d := by
    rintro d hd rfl
    exact absurd (hd.symm.trans h) (by simp)
  refine ⟨?_, hne 105 rfl, hne 73 rfl⟩
  have hnot : x ∉ bytesOf "0123456789.+-eE" := by
    intro hmem
    have hspace : ∀ d ∈ bytesOf "0123456789.+-eE", isSpace d = false := by simp [bytesOf, isSpace]
    exact absurd ((hspace x hmem).symm.trans h) (by simp)
  simpa [isNumberChar] using hnot

/-- A byte that comes behind a child, after blanks. -/
structure EndsValue (y : UInt8) : Prop where
  notSpace : isSpace y = false
  ne_slash : y ≠ 47
  endsNumber : EndsNumber y

theorem endsValue_of_mem (h : y ∈ [(44 : UInt8), 93, 125, 0]) : EndsValue y := by
  simp only [List.mem_cons, List.not_mem_nil, or_false] at h
  rcases h with rfl | rfl | rfl | rfl <;> exact ⟨rfl, by decide, rfl, by decide, by decide⟩

/-- Blanks and such a byte: the first of them ends a number. -/
theorem exists_endsNumber (hws : Blank ws) (hy : EndsValue y) (more : List UInt8) :
    ∃ x xs, ws ++ y :: more = x :: xs ∧ EndsNumber x := by
  cases ws with
  | nil => exact ⟨y, more, rfl, hy.endsNumber⟩
  | cons c ws => exact ⟨c, ws ++ y :: more, rfl, endsNumber_of_isSpace (hws c List.mem_cons_self)⟩

/-- From a new level the tokener gets to the start of a value. -/
theorem reaches_start (ht : t.level = .fresh) (hspace : isSpace c = false) (h47 : c ≠ 47) :
    Reaches (tokRound ops chunk) ⟨t, obj, d, c :: rest⟩ ⟨t.setState .start, obj, c, c :: rest⟩ := by
  have hst : t.state = .eatws := by rw [Tokener.state, ht]; rfl
  have hsaved : t.savedState = .start := by rw [Tokener.savedState, ht]; rfl
  have hreach : Reaches (tokRound ops chunk) ⟨t, obj, d, [] ++ c :: rest⟩ ⟨t.setState t.savedState, obj, c, c :: rest⟩ :=
    reaches_eatws blank_nil hst hspace h47
  rwa [hsaved] at hreach

/-- Without spaces and comments a value is read from its first character. -/
theorem Yields.of_start (ht : t.level = .fresh) (hspace : isSpace c = false) (h47 : c ≠ 47)
    (h : Yields ops chunk ⟨t.setState .start, obj, c, c :: rest⟩ v x more) : Yields ops chunk ⟨t, obj, d, c :: rest⟩ v x more :=
  Yields.of_reaches (reaches_start ht hspace h47) ⟨rfl, rfl, rfl, rfl⟩ h

theorem start_state (t : Tokener ρ) : (t.setState .start).state = .start := rfl

theorem start_field (ht : t.level = .fresh) : (t.setState .start).level.objFieldName = none := by
  rw [Tokener.setState, ht]
  rfl

/-! ## Values that are no arrays or objects -/

theorem reads_null : Reads ops chunk flags .null := by
  intro level t obj d x more ht _ _
  have htext : callsText (toJsonString ops flags level .null) = 110 :: [117, 108, 108] := rfl
  rw [htext]
  exact .of_start ht rfl (by decide) (yields_null (start_state t) (start_field ht))

theorem reads_boolean (b : Bool) : Reads ops chunk flags (.boolean b) := by
  intro level t obj d x more ht _ _
  cases b with
  | true =>
    have htext : callsText (toJsonString ops flags level (.boolean true)) = 116 :: [114, 117, 101] := rfl
    rw [htext]
    exact .of_start ht rfl (by decide) (yields_true (start_state t) (start_field ht))
  | false =>
    have htext : callsText (toJsonString ops flags level (.boolean false)) = 102 :: [97, 108, 115, 101] := rfl
    rw [htext]
    exact .of_start ht rfl (by decide) (yields_false (start_state t) (start_field ht))

/-- A text that is read as a number. -/
theorem reads_number {ds : List UInt8} (hhead : ∃ c cs, ds = c :: cs ∧ (isDigit c = true ∨ c = 45))
    (hds : ∀ c ∈ ds, isNumberChar c = true) (hvalue : ∀ strict, numberValue ops strict (ds.any isDoubleChar) ds = some v)
    (htext : ∀ level, callsText (toJsonString ops flags level v) = ds) :
    Reads ops chunk flags v := by
  intro level t obj d x more ht _ hx
  obtain ⟨c, cs, rfl, hc⟩ := hhead
  have hstart := startsValue_of_number hc
  rw [htext]
  exact .of_start ht hstart.notSpace hstart.ne_slash (yields_number (start_state t) (start_field ht) hc hds (hvalue _) hx)

theorem reads_int {i : Int} (hi : Int64 i) : Reads ops chunk flags (.int i) := by
  refine reads_number (?_ : ∃ c cs, decimalInt i = c :: cs ∧ (isDigit c = true ∨ c = 45)) (fun c hc => (decimalInt_chars hc).1)
    (numberValue_decimalInt hi) fun level => ?_
  · obtain ⟨c, hhead, hc⟩ := head_decimalInt i
    obtain ⟨cs, hcs⟩ := List.head?_eq_some_iff.mp hhead
    exact ⟨c, cs, hcs, hc⟩
  · simp [toJsonString, PrintbufCall.bytes]

theorem reads_double {r : ρ} {ds : List UInt8} (h : DoubleText ops r ds) : Reads ops chunk flags (.double r (some ds)) := by
  refine reads_number h.head h.chars (fun strict => ?_) fun level => ?_
  · simp [numberValue, h.isDouble, h.scan]
  · simp [toJsonString, PrintbufCall.bytes]

theorem reads_nan (hops : ops.Lawful) : Reads ops chunk flags (.double ops.nan none) := by
  intro level t obj d x more ht _ _
  have htext : callsText (toJsonString ops flags level (.double ops.nan none)) = 78 :: [97, 78] := by
    simp [toJsonString, jsonObjectDoubleToJsonString, hops.nan, bytesOf, PrintbufCall.bytes]
  rw [htext]
  exact .of_start ht rfl (by decide) (yields_nan (start_state t) (start_field ht))

theorem reads_infinity (hops : ops.Lawful) : Reads ops chunk flags (.double ops.infinity none) := by
  intro level t obj d x more ht _ _
  have htext : callsText (toJsonString ops flags level (.double ops.infinity none)) =
      73 :: [110, 102, 105, 110, 105, 116, 121] := by
    simp [toJsonString, jsonObjectDoubleToJsonString, hops.infinity, bytesOf, PrintbufCall.bytes]
  rw [htext]
  exact .of_start ht rfl (by decide) (yields_infinity (start_state t) (start_field ht))

/-- A value in quotes is read, if the text between them gives the string. -/
theorem yields_quoted {body s : List UInt8} (ht : t.level = .fresh)
    (hbody : ∀ (t1 : Tokener ρ) (y : UInt8), t1.state = .string → t1.quoteChar = 34 →
      ∃ t', Reaches (tokRound ops chunk) ⟨t1, obj, y, body ++ 34 :: x :: more⟩ ⟨closeQuoted .string t', obj, x, x :: more⟩ ∧
      t1.Gathers t' s) :
    Yields ops chunk ⟨t, obj, d, 34 :: (body ++ 34 :: x :: more)⟩ (.string s) x more := by
  refine .of_start ht rfl (by decide) ?_
  obtain ⟨y, ys, hy⟩ : ∃ y ys, body ++ 34 :: x :: more = y :: ys := List.exists_cons_of_ne_nil (by simp)
  generalize ht1 : ({ ((t.setState .start).setState .string).resetPb with quoteChar := 34 } : Tokener ρ) = t1
  have hquote : dispatch ops chunk ⟨t.setState .start, obj, 34, 34 :: (body ++ 34 :: x :: more)⟩ =
      .next ⟨t1, obj, 34, 34 :: y :: ys⟩ := by
    rw [← ht1, hy]
    rfl
  have hround := tokRound_of_next hquote (show (34 : UInt8) ≠ 0 by decide) rfl
  obtain ⟨t', hreach, hgathers⟩ := hbody t1 y (ht1 ▸ rfl) (ht1 ▸ rfl)
  have hpb : t'.pb = s := hgathers.pb.trans (by rw [← ht1]; rfl)
  have hfield1 : t1.level.objFieldName = (t.setState .start).level.objFieldName := ht1 ▸ rfl
  have hfield : t'.level.objFieldName = none := (hgathers.objFieldName.trans hfield1).trans (start_field ht)
  have hkeeps1 : t.Keeps t1 := ht1 ▸ ⟨rfl, rfl, rfl, rfl⟩
  have hkeeps := hkeeps1.trans hgathers.keeps
  rw [hy] at hreach
  refine ⟨_, _, Reaches.head hround hreach, ⟨hkeeps.strict, hkeeps.maxDepth, hkeeps.err, hkeeps.levels⟩, ?_⟩
  simp [closeQuoted, Tokener.finishWith, Tokener.eatThen, Tokener.setState, Tokener.setSaved, Level.finished, hpb, hfield]

/-- A string is read back. -/
theorem reads_string (s : List UInt8) : Reads ops chunk flags (.string s) := by
  intro level t obj d x more ht _ _
  have htext : callsText (toJsonString ops flags level (.string s)) ++ x :: more = 34 :: (escapeText s ++ 34 :: x :: more) := by
    simp [toJsonString, PrintbufCall.bytes, bytesOf]
  rw [htext]
  exact yields_quoted ht fun t1 y hst hquote => reaches_escapeText (.inl rfl) s [] hst hquote (List.forall_mem_nil _)

/-! ## Children -/

/-- A text starts with the first byte of a value. -/
theorem startsValue_text (hops : ops.Lawful) (flags : PrintFlags) (hv : v.WellFormed ops) (level : Nat) :
    ∃ c cs, callsText (toJsonString ops flags level v) = c :: cs ∧ StartsValue c := by
  cases v with
  | null => exact ⟨110, _, rfl, rfl, by decide, by decide, by decide⟩
  | boolean b => cases b <;> exact ⟨_, _, rfl, rfl, by decide, by decide, by decide⟩
  | int i =>
    obtain ⟨c, hhead, hc⟩ := head_decimalInt i
    obtain ⟨cs, hcs⟩ := List.head?_eq_some_iff.mp hhead
    exact ⟨c, cs, by simp [toJsonString, PrintbufCall.bytes, hcs], startsValue_of_number hc⟩
  | double r userdata =>
    cases userdata with
    | none =>
      rcases hv with rfl | rfl | rfl
      · exact ⟨78, [97, 78],
          by simp [toJsonString, jsonObjectDoubleToJsonString, hops.nan, bytesOf, PrintbufCall.bytes],
          rfl, by decide, by decide, by decide⟩
      · exact ⟨73, [110, 102, 105, 110, 105, 116, 121],
          by simp [toJsonString, jsonObjectDoubleToJsonString, hops.infinity, bytesOf, PrintbufCall.bytes],
          rfl, by decide, by decide, by decide⟩
      · exact ⟨45, [73, 110, 102, 105, 110, 105, 116, 121],
          by simp [toJsonString, jsonObjectDoubleToJsonString, hops.negInfinity, bytesOf, PrintbufCall.bytes],
          rfl, by decide, by decide, by decide⟩
    | some ds =>
      have hds : DoubleText ops r ds := hv
      obtain ⟨c, cs, rfl, hc⟩ := hds.head
      exact ⟨c, cs, by simp [toJsonString, PrintbufCall.bytes], startsValue_of_number hc⟩
  | string s => exact ⟨34, _, rfl, rfl, by decide, by decide, by decide⟩
  | array vals => exact ⟨91, _, rfl, rfl, by decide, by decide, by decide⟩
  | object fields => exact ⟨123, _, rfl, rfl, by decide, by decide, by decide⟩

/-- A child is read in a level of its own, which is closed again; its value is at hand in the level below. -/
theorem reaches_child {st : TokenerState} (hv : Reads ops chunk flags v)
    (hopen : dispatch ops chunk ⟨t, obj, c, callsText (toJsonString ops flags level v) ++ (ws ++ y :: more)⟩ =
      openLevel ⟨t, obj, c, callsText (toJsonString ops flags level v) ++ (ws ++ y :: more)⟩ st)
    (hdepth : v.depth + (t.depth + 1) < t.maxDepth) (hws : Blank ws) (hy : EndsValue y) :
    ∃ t', Reaches (tokRound ops chunk) ⟨t, obj, c, callsText (toJsonString ops flags level v) ++ (ws ++ y :: more)⟩
      ⟨t', v, y, y :: more⟩ ∧ t.Keeps t' ∧ t'.level = { t.level with state := st } := by
  have hroom : ¬ t.maxDepth ≤ t.depth + 1 := by omega
  rw [openLevel, if_neg hroom] at hopen
  obtain ⟨x, xs, hx, hends⟩ := exists_endsNumber hws hy more
  rw [hx] at hopen ⊢
  obtain ⟨t1, obj1, hreach, hkeeps, hlevel⟩ := hv level (t.setState st).push obj c x xs rfl hdepth hends
  -- the blanks behind the child, and then its level is closed
  have hfinish : Reaches (tokRound ops chunk) ⟨t1, obj1, x, ws ++ y :: more⟩ ⟨t1.setState t1.savedState, obj1, y, y :: more⟩ :=
    reaches_eatws hws (by rw [Tokener.state, hlevel]; rfl) hy.notSpace hy.ne_slash
  have hsaved : t1.savedState = .finish := by rw [Tokener.savedState, hlevel]; rfl
  have hlevels : t1.levels = { t.level with state := st } :: t.levels := hkeeps.levels
  have hpop : dispatch ops chunk ⟨t1.setState t1.savedState, obj1, y, y :: more⟩ =
      .redo ⟨{ t1.setState .finish with level := { t.level with state := st }, levels := t.levels }, v, y, y :: more⟩ := by
    rw [hsaved]
    simp [dispatch, onFinish, Tokener.state, Tokener.setState, hlevels, hlevel, Level.finished]
  rw [hx] at hfinish
  exact ⟨_, (Reaches.head (tokRound_of_redo hopen) hreach).trans (hfinish.trans (Reaches.single (tokRound_of_redo hpop))),
    ⟨hkeeps.strict, hkeeps.maxDepth, hkeeps.err, rfl⟩, rfl⟩

/-! ## Arrays -/

/-- The level of an array that is being read, between two children. -/
def Level.inArray (st : TokenerState) (vals : List (JsonObject ρ)) : Level ρ :=
  { state := .eatws, savedState := st, current := .array vals, objFieldName := none }

/-- An element is read and put behind those before it. -/
theorem reaches_element {st : TokenerState} {acc : List (JsonObject ρ)} (hops : ops.Lawful) (hv : Reads ops chunk flags v)
    (hwf : v.WellFormed ops) (hst : st = .array ∨ st = .arrayAfterSep) (ht : t.level = .inArray st acc)
    (hdepth : v.depth + (t.depth + 1) < t.maxDepth) (hws : Blank ws)
    (hws' : Blank ws') (hy : EndsValue y) :
    ∃ t' obj', Reaches (tokRound ops chunk) ⟨t, obj, d, ws ++ (callsText (toJsonString ops flags level v) ++ (ws' ++ y :: more))⟩
      ⟨t', obj', y, y :: more⟩ ∧ t.Keeps t' ∧ t'.level = .inArray .arraySep (acc ++ [v]) := by
  obtain ⟨c, cs, htext, hstart⟩ := startsValue_text hops flags hwf level
  have heat : Reaches (tokRound ops chunk) ⟨t, obj, d, ws ++ c :: (cs ++ (ws' ++ y :: more))⟩
      ⟨t.setState t.savedState, obj, c, c :: (cs ++ (ws' ++ y :: more))⟩ :=
    reaches_eatws hws (by rw [Tokener.state, ht]; rfl) hstart.notSpace hstart.ne_slash
  have hsaved : t.savedState = st := by rw [Tokener.savedState, ht]; rfl
  rw [hsaved] at heat
  have hopen : dispatch ops chunk ⟨t.setState st, obj, c, callsText (toJsonString ops flags level v) ++ (ws' ++ y :: more)⟩ =
      openLevel ⟨t.setState st, obj, c, callsText (toJsonString ops flags level v) ++ (ws' ++ y :: more)⟩ .arrayAdd := by
    rcases hst with rfl | rfl <;> simp [dispatch, Tokener.state, Tokener.setState, onArray, hstart.ne_bracket]
  obtain ⟨t1, hchild, hkeeps, hlevel⟩ := reaches_child hv hopen hdepth hws' hy
  have hadd : dispatch ops chunk ⟨t1, v, y, y :: more⟩ =
      .redo ⟨{ t1 with level := .inArray .arraySep (acc ++ [v]) }, v, y, y :: more⟩ := by
    have hlevel1 : t1.level = { state := .arrayAdd, savedState := st, current := .array acc, objFieldName := none } := by
      rw [hlevel, Tokener.setState, ht]
      rfl
    simp [dispatch, Tokener.state, hlevel1, onArrayAdd, TokRun.map, Tokener.eatThen, Tokener.setState, Tokener.setSaved,
      Level.inArray]
  rw [htext] at hchild ⊢
  exact ⟨_, v, (heat.trans hchild).trans (Reaches.single (tokRound_of_redo hadd)),
    ⟨hkeeps.strict, hkeeps.maxDepth, hkeeps.err, hkeeps.levels⟩, rfl⟩

/-- The bracket behind the elements. -/
theorem yields_bracket {st : TokenerState} {acc : List (JsonObject ρ)} (hst : st = .array ∨ st = .arraySep)
    (ht : t.level = .inArray st acc) (hws : Blank ws) :
    Yields ops chunk ⟨t, obj, d, ws ++ 93 :: x :: more⟩ (.array acc) x more := by
  have heat : Reaches (tokRound ops chunk) ⟨t, obj, d, ws ++ 93 :: x :: more⟩
    ⟨t.setState t.savedState, obj, 93, 93 :: x :: more⟩ :=
    reaches_eatws hws (by rw [Tokener.state, ht]; rfl) rfl (by decide)
  have hsaved : t.savedState = st := by rw [Tokener.savedState, ht]; rfl
  rw [hsaved] at heat
  have hclose : dispatch ops chunk ⟨t.setState st, obj, 93, 93 :: x :: more⟩ =
      .next ⟨{ t with level := .finished (.array acc) }, obj, 93, 93 :: x :: more⟩ := by
    rcases hst with rfl | rfl <;>
      simp [dispatch, Tokener.state, Tokener.setState, onArray, onArraySep, closeLevel, TokRun.map, Tokener.eatThen,
        Tokener.setSaved, ht, Level.inArray, Level.finished]
  exact ⟨_, _, heat.trans (Reaches.single (tokRound_of_next hclose (show (93 : UInt8) ≠ 0 by decide) rfl)),
    ⟨rfl, rfl, rfl, rfl⟩, rfl⟩

/-- Behind a child there is a comma or nothing. -/
theorem arrayChildren_true (ops : DoubleOps ρ) (flags : PrintFlags) (level : Nat) (vals : List (JsonObject ρ)) :
    callsText (arrayChildren ops flags level true vals) = [] ∨ ∃ rest, callsText (arrayChildren ops flags level true vals) =
      44 :: rest := by
  cases vals with
  | nil => exact .inl rfl
  | cons v vals =>
    obtain ⟨ws, -, hcomma⟩ := childPrefix_true flags (level + 1)
    exact .inr ⟨_, by rw [arrayChildren, callsText_append, callsText_append, hcomma, List.append_assoc]; rfl⟩

theorem endsValue_bracket : EndsValue 93 := endsValue_of_mem (by simp)

/-- Behind a child there is a comma, or there are blanks and the bracket. -/
theorem exists_next {text : List UInt8} (htext : text = [] ∨ ∃ rest, text = 44 :: rest) (hws : Blank ws) (hy : EndsValue y)
    (more : List UInt8) : ∃ ws₁ c rest ws₂, text ++ (ws ++ y :: more) = ws₁ ++ c :: rest ∧ Blank ws₁ ∧ EndsValue c ∧ Blank ws₂ ∧
      text ++ (ws₂ ++ y :: more) = c :: rest := by
  rcases htext with rfl | ⟨rest, rfl⟩
  · exact ⟨ws, y, more, [], rfl, hws, hy, blank_nil, rfl⟩
  · exact ⟨[], 44, rest ++ (ws ++ y :: more), ws, rfl, blank_nil, endsValue_of_mem (by simp), hws, rfl⟩

/-- The elements behind the first one, each with a comma in front of it. -/
theorem yields_elements (hops : ops.Lawful) (vals : List (JsonObject ρ)) (hreads : ∀ v ∈ vals, Reads ops chunk flags v)
    (hwf : ∀ v ∈ vals, v.WellFormed ops) (hdepth : ∀ v ∈ vals, v.depth + (t.depth + 1) < t.maxDepth) {acc : List (JsonObject ρ)}
    (ht : t.level = .inArray .arraySep acc) (hws : Blank ws) :
    Yields ops chunk ⟨t, obj, d, callsText (arrayChildren ops flags level true vals) ++ (ws ++ 93 :: x :: more)⟩
      (.array (acc ++ vals)) x more := by
  induction vals generalizing t obj d acc ws with
  | nil =>
    rw [List.append_nil]
    exact yields_bracket (.inr rfl) ht hws
  | cons v vals ih =>
    obtain ⟨ws0, hws0, hcomma⟩ := childPrefix_true flags (level + 1)
    obtain ⟨ws1, c, rest, ws2, hrest, hws1, hc, hws2, hrest2⟩ :=
      exists_next (arrayChildren_true ops flags level vals) hws endsValue_bracket (x :: more)
    have htext : callsText (arrayChildren ops flags level true (v :: vals)) ++ (ws ++ 93 :: x :: more) =
        44 :: (ws0 ++ (callsText (toJsonString ops flags (level + 1) v) ++ (ws1 ++ c :: rest))) := by
      rw [← hrest, arrayChildren, callsText_append, callsText_append, hcomma]
      simp
    obtain ⟨z, zs, hz⟩ : ∃ z zs, ws0 ++ (callsText (toJsonString ops flags (level + 1) v) ++ (ws1 ++ c :: rest)) = z :: zs :=
      List.exists_cons_of_ne_nil (by simp)
    -- the comma, the element, and the elements behind it
    have heat : Reaches (tokRound ops chunk) ⟨t, obj, d, [] ++ 44 :: z :: zs⟩ ⟨t.setState t.savedState, obj, 44, 44 :: z :: zs⟩ :=
      reaches_eatws blank_nil (by rw [Tokener.state, ht]; rfl) rfl (by decide)
    have hsaved : t.savedState = .arraySep := by rw [Tokener.savedState, ht]; rfl
    have hsep : dispatch ops chunk ⟨t.setState t.savedState, obj, 44, 44 :: z :: zs⟩ =
        .next ⟨{ t with level := .inArray .arrayAfterSep acc }, obj, 44, 44 :: z :: zs⟩ := by
      rw [hsaved]
      simp [dispatch, Tokener.state, Tokener.setState, onArraySep, TokRun.map, Tokener.eatThen, Tokener.setSaved, ht,
        Level.inArray]
    have hv := hreads v List.mem_cons_self
    obtain ⟨t', obj', helement, hkeeps, hlevel⟩ : ∃ t' obj', Reaches (tokRound ops chunk)
        ⟨{ t with level := .inArray .arrayAfterSep acc }, obj, z,
        ws0 ++ (callsText (toJsonString ops flags (level + 1) v) ++ (ws1 ++ c :: rest))⟩ ⟨t', obj', c, c :: rest⟩ ∧
        ({ t with level := .inArray .arrayAfterSep acc } : Tokener ρ).Keeps t' ∧ t'.level = .inArray .arraySep (acc ++ [v]) :=
      reaches_element hops hv (hwf v List.mem_cons_self) (.inr rfl) rfl (hdepth v List.mem_cons_self) hws0 hws1 hc
    have hdepth' : t'.depth = t.depth := congrArg List.length hkeeps.levels
    have hmax' : t'.maxDepth = t.maxDepth := hkeeps.maxDepth
    have htail : Yields ops chunk ⟨t', obj', c, callsText (arrayChildren ops flags level true vals) ++ (ws2 ++ 93 :: x :: more)⟩
        (.array (acc ++ [v] ++ vals)) x more :=
      ih (fun v hv => hreads v (List.mem_cons_of_mem _ hv)) (fun v hv => hwf v (List.mem_cons_of_mem _ hv))
        (fun v hv => by rw [hdepth', hmax']; exact hdepth v (List.mem_cons_of_mem _ hv)) hlevel hws2
    rw [htext, hz]
    rw [hz] at helement
    rw [hrest2, List.append_assoc] at htail
    exact Yields.of_reaches (heat.trans (Reaches.head (tokRound_of_next hsep (show (44 : UInt8) ≠ 0 by decide) rfl) helement))
      ⟨hkeeps.strict, hkeeps.maxDepth, hkeeps.err, hkeeps.levels⟩ htail

/-- An array is read, element by element. -/
theorem reads_array (hops : ops.Lawful) {vals : List (JsonObject ρ)} (hreads : ∀ v ∈ vals, Reads ops chunk flags v)
    (hwf : ∀ v ∈ vals, v.WellFormed ops) : Reads ops chunk flags (.array vals) := by
  intro level t obj d x more ht hdepth _
  have hroom : ∀ v ∈ vals, v.depth + (t.depth + 1) < t.maxDepth := by
    intro v hv
    have hv : v.depth < depthVals vals := depthVals_le.mp (Nat.le_refl _) v hv
    rw [JsonObject.depth] at hdepth
    omega
  obtain ⟨wsc, hwsc, hclosing⟩ := closing_text flags level (!vals.isEmpty) "]"
  generalize ht1 : ({ t with level := .inArray .array [] } : Tokener ρ) = t1
  have hlevel1 : t1.level = .inArray .array [] := ht1 ▸ rfl
  have hkeeps1 : t.Keeps t1 := ht1 ▸ ⟨rfl, rfl, rfl, rfl⟩
  have htext : callsText (toJsonString ops flags level (.array vals)) ++ x :: more =
      91 :: (callsText (prettyBreak flags) ++
      (callsText (arrayChildren ops flags level false vals) ++ (wsc ++ 93 :: x :: more))) := by
    simp [toJsonString, hclosing, PrintbufCall.bytes, bytesOf]
  obtain ⟨z, zs, hz⟩ : ∃ z zs, callsText (prettyBreak flags) ++
    (callsText (arrayChildren ops flags level false vals) ++ (wsc ++ 93 :: x :: more)) = z :: zs :=
    List.exists_cons_of_ne_nil (by simp)
  have hopen : dispatch ops chunk ⟨t.setState .start, obj, 91, 91 :: z :: zs⟩ = .next ⟨t1, obj, 91, 91 :: z :: zs⟩ := by
    rw [← ht1]
    simp [dispatch, Tokener.state, Tokener.setState, onStart, TokRun.map, Tokener.eatThen, Tokener.setSaved, ht,
      Level.inArray, Level.fresh]
  rw [htext, hz]
  refine .of_start ht rfl (by decide)
    (Yields.of_reaches (Reaches.single (tokRound_of_next hopen (show (91 : UInt8) ≠ 0 by decide) rfl))
    ⟨hkeeps1.strict, hkeeps1.maxDepth, hkeeps1.err, hkeeps1.levels⟩ ?_)
  rw [← hz]
  cases vals with
  | nil =>
    rw [arrayChildren, callsText_nil, List.nil_append, ← List.append_assoc]
    exact yields_bracket (.inl rfl) hlevel1 ((blank_prettyBreak flags).append hwsc)
  | cons v vals =>
    obtain ⟨ws1, c, rest, ws2, hrest, hws1, hc, hws2, hrest2⟩ :=
      exists_next (arrayChildren_true ops flags level vals) hwsc endsValue_bracket (x :: more)
    have hfirst : callsText (prettyBreak flags) ++
        (callsText (arrayChildren ops flags level false (v :: vals)) ++ (wsc ++ 93 :: x :: more)) =
          (callsText (prettyBreak flags) ++ callsText (childPrefix flags (level + 1) false)) ++
          (callsText (toJsonString ops flags (level + 1) v) ++ (ws1 ++ c :: rest)) := by
      rw [← hrest, arrayChildren]
      simp
    obtain ⟨t', obj', helement, hkeeps, hlevel⟩ : ∃ t' obj', Reaches (tokRound ops chunk) ⟨t1, obj, z,
        (callsText (prettyBreak flags) ++ callsText (childPrefix flags (level + 1) false)) ++
          (callsText (toJsonString ops flags (level + 1) v) ++ (ws1 ++ c :: rest))⟩ ⟨t', obj', c, c :: rest⟩ ∧ t1.Keeps t' ∧
        t'.level = .inArray .arraySep ([] ++ [v]) :=
      reaches_element hops (hreads v List.mem_cons_self) (hwf v List.mem_cons_self) (.inl rfl) hlevel1
        (by rw [← ht1]; exact hroom v List.mem_cons_self)
        ((blank_prettyBreak flags).append (blank_childPrefix flags (level + 1))) hws1 hc
    have hkeeps' := hkeeps1.trans hkeeps
    have hdepth' : t'.depth = t.depth := congrArg List.length hkeeps'.levels
    rw [hfirst]
    refine Yields.of_reaches helement hkeeps ?_
    rw [← hrest2]
    exact yields_elements hops vals (fun v hv => hreads v (List.mem_cons_of_mem _ hv))
      (fun v hv => hwf v (List.mem_cons_of_mem _ hv))
      (fun v hv => by rw [hdepth', hkeeps'.maxDepth]; exact hroom v (List.mem_cons_of_mem _ hv)) hlevel hws2

/-! ## Objects -/

/-- The level of an object that is being read, between two fields. -/
def Level.inObject (st : TokenerState) (fields : List (List UInt8 × JsonObject ρ)) : Level ρ :=
  { state := .eatws, savedState := st, current := .object fields, objFieldName := none }

/-- A new field goes to the end. -/
theorem fieldsAdd_new {fields : List (List UInt8 × JsonObject ρ)} {key : List UInt8} (hkey : key ∉ fields.map Prod.fst) :
    fieldsAdd fields key v = fields ++ [(key, v)] := if_neg hkey

/-- The name of a field is read, up to its quote. -/
theorem reaches_key {st : TokenerState} {acc : List (List UInt8 × JsonObject ρ)} {key : List UInt8} (hkey : ∀ c ∈ key, c ≠ 0)
    (hst : st = .objectFieldStart ∨ st = .objectFieldStartAfterSep) (ht : t.level = .inObject st acc) (hws : Blank ws) :
    ∃ t' obj', Reaches (tokRound ops chunk) ⟨t, obj, d, ws ++ 34 :: (escapeText key ++ 34 :: x :: more)⟩
      ⟨t', obj', x, x :: more⟩ ∧ t.Keeps t' ∧
      t'.level = { state := .eatws, savedState := .objectFieldEnd, current := .object acc, objFieldName := some key } := by
  have heat : Reaches (tokRound ops chunk) ⟨t, obj, d, ws ++ 34 :: (escapeText key ++ 34 :: x :: more)⟩
      ⟨t.setState t.savedState, obj, 34, 34 :: (escapeText key ++ 34 :: x :: more)⟩ :=
    reaches_eatws hws (by rw [Tokener.state, ht]; rfl) rfl (by decide)
  have hsaved : t.savedState = st := by rw [Tokener.savedState, ht]; rfl
  rw [hsaved] at heat
  obtain ⟨y, ys, hy⟩ : ∃ y ys, escapeText key ++ 34 :: x :: more = y :: ys := List.exists_cons_of_ne_nil (by simp)
  generalize ht1 : ({ ((t.setState st).resetPb).setState .objectField with quoteChar := 34 } : Tokener ρ) = t1
  have hquote : dispatch ops chunk ⟨t.setState st, obj, 34, 34 :: (escapeText key ++ 34 :: x :: more)⟩ =
      .next ⟨t1, obj, 34, 34 :: y :: ys⟩ := by
    rw [← ht1, hy]
    rcases hst with rfl | rfl <;> rfl
  have hround := tokRound_of_next hquote (show (34 : UInt8) ≠ 0 by decide) rfl
  obtain ⟨t', hreach, hgathers⟩ : ∃ t', Reaches (tokRound ops chunk) ⟨t1, obj, y, [] ++ (escapeText key ++ 34 :: x :: more)⟩
      ⟨closeQuoted .objectField t', obj, x, x :: more⟩ ∧ t1.Gathers t' ([] ++ key) :=
    reaches_escapeText (.inr rfl) key [] (ht1 ▸ rfl) (ht1 ▸ rfl) (List.forall_mem_nil _)
  have hpb : t'.pb = key := hgathers.pb.trans (by rw [← ht1]; rfl)
  have hcurrent : t'.level.current = .object acc :=
    hgathers.current.trans (by rw [← ht1]; simp [Tokener.setState, Tokener.resetPb, ht, Level.inObject])
  have hname : key.takeWhile (· != 0) = key := List.takeWhile_eq_self_iff.mpr fun c hc => by simpa using hkey c hc
  have hkeeps1 : t.Keeps t1 := ht1 ▸ ⟨rfl, rfl, rfl, rfl⟩
  have hkeeps := hkeeps1.trans hgathers.keeps
  rw [List.nil_append, hy] at hreach
  refine ⟨_, _, heat.trans (Reaches.head hround hreach), ⟨hkeeps.strict, hkeeps.maxDepth, hkeeps.err, hkeeps.levels⟩, ?_⟩
  simp [closeQuoted, Tokener.eatThen, Tokener.setState, Tokener.setSaved, hpb, hname, hcurrent]

/-- The colon behind a name, and the blank behind it. -/
theorem reaches_colon {acc : List (List UInt8 × JsonObject ρ)} {key blank : List UInt8}
    (ht : t.level = { state := .eatws, savedState := .objectFieldEnd, current := .object acc, objFieldName := some key })
    (hblank : Blank blank)
    (hspace : isSpace c = false) (h47 : c ≠ 47) :
    ∃ t', Reaches (tokRound ops chunk) ⟨t, obj, d, 58 :: (blank ++ c :: rest)⟩ ⟨t', obj, c, c :: rest⟩ ∧ t.Keeps t' ∧
      t'.level = { state := .objectValue, savedState := .objectValue, current := .object acc, objFieldName := some key } := by
  obtain ⟨z, zs, hz⟩ : ∃ z zs, blank ++ c :: rest = z :: zs := List.exists_cons_of_ne_nil (by simp)
  have heat1 : Reaches (tokRound ops chunk) ⟨t, obj, d, [] ++ 58 :: z :: zs⟩ ⟨t.setState t.savedState, obj, 58, 58 :: z :: zs⟩ :=
    reaches_eatws blank_nil (by rw [Tokener.state, ht]) rfl (by decide)
  generalize ht1 : t.eatThen .objectValue = t1
  have hlevel1 : t1.level =
      { state := .eatws, savedState := .objectValue, current := .object acc, objFieldName := some key } := by
    rw [← ht1]
    simp [Tokener.eatThen, Tokener.setState, Tokener.setSaved, ht]
  have hcolon : dispatch ops chunk ⟨t.setState t.savedState, obj, 58, 58 :: z :: zs⟩ = .next ⟨t1, obj, 58, 58 :: z :: zs⟩ := by
    rw [← ht1]
    simp [dispatch, Tokener.state, Tokener.savedState, Tokener.setState, ht, onObjectFieldEnd, TokRun.map, Tokener.eatThen,
      Tokener.setSaved]
  have heat2 : Reaches (tokRound ops chunk) ⟨t1, obj, z, blank ++ c :: rest⟩ ⟨t1.setState t1.savedState, obj, c, c :: rest⟩ :=
    reaches_eatws hblank (by rw [Tokener.state, hlevel1]) hspace h47
  rw [hz] at heat2 ⊢
  refine ⟨_, heat1.trans (Reaches.head (tokRound_of_next hcolon (show (58 : UInt8) ≠ 0 by decide) rfl) heat2),
    ht1 ▸ ⟨rfl, rfl, rfl, rfl⟩, ?_⟩
  simp [Tokener.setState, Tokener.savedState, hlevel1]

/-- A field is read, name and value, and put behind those before it. -/
theorem reaches_field {st : TokenerState} {acc : List (List UInt8 × JsonObject ρ)} {key : List UInt8} (hops : ops.Lawful)
    (hv : Reads ops chunk flags v) (hwf : v.WellFormed ops) (hkey : ∀ c ∈ key, c ≠ 0) (hnew : key ∉ acc.map Prod.fst)
    (hst : st = .objectFieldStart ∨ st = .objectFieldStartAfterSep) (ht : t.level = .inObject st acc)
    (hdepth : v.depth + (t.depth + 1) < t.maxDepth) {blank : List UInt8} (hblank : Blank blank) (hws : Blank ws)
    (hws' : Blank ws') (hy : EndsValue y) :
    ∃ t' obj', Reaches (tokRound ops chunk)
        ⟨t, obj, d, ws ++ 34 :: (escapeText key ++ 34 :: 58 ::
          (blank ++ (callsText (toJsonString ops flags level v) ++ (ws' ++ y :: more))))⟩
        ⟨t', obj', y, y :: more⟩ ∧ t.Keeps t' ∧ t'.level = .inObject .objectSep (acc ++ [(key, v)]) := by
  obtain ⟨c, cs, htext, hstart⟩ := startsValue_text hops flags hwf level
  obtain ⟨t1, obj1, hname, hkeeps1, hlevel1⟩ : ∃ t1 obj1, Reaches (tokRound ops chunk)
      ⟨t, obj, d, ws ++ 34 :: (escapeText key ++ 34 :: 58 :: (blank ++ c :: (cs ++ (ws' ++ y :: more))))⟩
      ⟨t1, obj1, 58, 58 :: (blank ++ c :: (cs ++ (ws' ++ y :: more)))⟩ ∧ t.Keeps t1 ∧
      t1.level = { state := .eatws, savedState := .objectFieldEnd, current := .object acc, objFieldName := some key } :=
    reaches_key hkey hst ht hws
  obtain ⟨t2, hcolon, hkeeps2, hlevel2⟩ : ∃ t2, Reaches (tokRound ops chunk)
      ⟨t1, obj1, 58, 58 :: (blank ++ c :: (cs ++ (ws' ++ y :: more)))⟩ ⟨t2, obj1, c, c :: (cs ++ (ws' ++ y :: more))⟩ ∧
      t1.Keeps t2 ∧
      t2.level = { state := .objectValue, savedState := .objectValue, current := .object acc, objFieldName := some key } :=
    reaches_colon hlevel1 hblank hstart.notSpace hstart.ne_slash
  have hkeeps12 := hkeeps1.trans hkeeps2
  have hopen : dispatch ops chunk ⟨t2, obj1, c, callsText (toJsonString ops flags level v) ++ (ws' ++ y :: more)⟩ =
      openLevel ⟨t2, obj1, c, callsText (toJsonString ops flags level v) ++ (ws' ++ y :: more)⟩ .objectValueAdd := by
    simp [dispatch, Tokener.state, hlevel2, onObjectValue]
  have hroom : v.depth + (t2.depth + 1) < t2.maxDepth := by
    have hd : t2.depth = t.depth := congrArg List.length hkeeps12.levels
    rwa [hd, hkeeps12.maxDepth]
  obtain ⟨t3, hchild, hkeeps3, hlevel3⟩ := reaches_child hv hopen hroom hws' hy
  have hadd : dispatch ops chunk ⟨t3, v, y, y :: more⟩ =
      .redo ⟨{ t3 with level := .inObject .objectSep (acc ++ [(key, v)]) }, v, y, y :: more⟩ := by
    have hlevel : t3.level =
        { state := .objectValueAdd, savedState := .objectValue, current := .object acc, objFieldName := some key } := by
      rw [hlevel3, hlevel2]
    simp [dispatch, Tokener.state, hlevel, onObjectValueAdd, TokRun.map, Tokener.eatThen, Tokener.setState, Tokener.setSaved,
      Level.inObject, fieldsAdd_new hnew]
  have hkeeps := hkeeps12.trans hkeeps3
  rw [htext] at hchild ⊢
  exact ⟨_, v, (hname.trans (hcolon.trans hchild)).trans (Reaches.single (tokRound_of_redo hadd)),
    ⟨hkeeps.strict, hkeeps.maxDepth, hkeeps.err, hkeeps.levels⟩, rfl⟩

/-- The brace behind the fields. -/
theorem yields_brace {st : TokenerState} {acc : List (List UInt8 × JsonObject ρ)} (hst : st = .objectFieldStart ∨ st = .objectSep)
    (ht : t.level = .inObject st acc) (hws : Blank ws) :
    Yields ops chunk ⟨t, obj, d, ws ++ 125 :: x :: more⟩ (.object acc) x more := by
  have heat : Reaches (tokRound ops chunk) ⟨t, obj, d, ws ++ 125 :: x :: more⟩
    ⟨t.setState t.savedState, obj, 125, 125 :: x :: more⟩ :=
    reaches_eatws hws (by rw [Tokener.state, ht]; rfl) rfl (by decide)
  have hsaved : t.savedState = st := by rw [Tokener.savedState, ht]; rfl
  rw [hsaved] at heat
  have hclose : dispatch ops chunk ⟨t.setState st, obj, 125, 125 :: x :: more⟩ =
      .next ⟨{ t with level := .finished (.object acc) }, obj, 125, 125 :: x :: more⟩ := by
    rcases hst with rfl | rfl <;>
      simp [dispatch, Tokener.state, Tokener.setState, onObjectFieldStart, onObjectSep, closeLevel, TokRun.map, Tokener.eatThen,
        Tokener.setSaved, ht, Level.inObject, Level.finished]
  exact ⟨_, _, heat.trans (Reaches.single (tokRound_of_next hclose (show (125 : UInt8) ≠ 0 by decide) rfl)),
    ⟨rfl, rfl, rfl, rfl⟩, rfl⟩

/-- Behind a field there is a comma or nothing. -/
theorem objectChildren_true (ops : DoubleOps ρ) (flags : PrintFlags) (level : Nat) (fields : List (List UInt8 × JsonObject ρ)) :
    callsText (objectChildren ops flags level true fields) = [] ∨ ∃ rest, callsText (objectChildren ops flags level true fields) =
      44 :: rest := by
  cases fields with
  | nil => exact .inl rfl
  | cons field fields =>
    obtain ⟨ws, -, hcomma⟩ := childPrefix_true flags (level + 1)
    exact .inr ⟨_, by rw [objectChildren, callsText_append, hcomma, List.cons_append]⟩

/-- The text of a field, behind what comes in front of it. -/
theorem objectChildren_cons (level : Nat) {key : List UInt8} (hkey : ∀ c ∈ key, c ≠ 0) (hadChildren : Bool) (v : JsonObject ρ)
    (fields : List (List UInt8 × JsonObject ρ)) :
      ∃ blank, Blank blank ∧ callsText (objectChildren ops flags level hadChildren ((key, v) :: fields)) =
        callsText (childPrefix flags (level + 1) hadChildren) ++ 34 :: (escapeText key ++ 34 :: 58 ::
          (blank ++
            (callsText (toJsonString ops flags (level + 1) v) ++ callsText (objectChildren ops flags level true fields)))) := by
  have hname : key.takeWhile (· != 0) = key := List.takeWhile_eq_self_iff.mpr fun c hc => by simpa using hkey c hc
  refine ⟨if flags.spaced then [32] else [], ?_, ?_⟩
  · split
    · exact fun c hc => List.mem_singleton.mp hc ▸ rfl
    · exact blank_nil
  · cases hspaced : flags.spaced <;> simp [objectChildren, hname, PrintbufCall.bytes, bytesOf, hspaced]

theorem endsValue_brace : EndsValue 125 := endsValue_of_mem (by simp)

/-- What is known of the fields that are still to be read, behind those that were. -/
structure ReadsFields (ops : DoubleOps ρ) (chunk : Bool) (flags : PrintFlags) (acc fields : List (List UInt8 × JsonObject ρ))
    (room : Nat) : Prop where
  reads : ∀ f ∈ fields, Reads ops chunk flags f.2
  wellFormed : ∀ f ∈ fields, f.2.WellFormed ops
  depth : ∀ f ∈ fields, f.2.depth < room
  key : ∀ f ∈ fields, ∀ c ∈ f.1, c ≠ 0
  nodup : ((acc ++ fields).map Prod.fst).Nodup

/-- The next key is not among those that were read. -/
theorem ReadsFields.notMem {acc fields : List (List UInt8 × JsonObject ρ)} {key : List UInt8} {room : Nat}
    (h : ReadsFields ops chunk flags acc ((key, v) :: fields) room) : key ∉ acc.map Prod.fst := by
  have hnodup := h.nodup
  rw [List.map_append, List.map_cons, List.nodup_middle, List.nodup_cons, List.mem_append, not_or] at hnodup
  exact hnodup.1.1

/-- The other fields are read with the first one added. -/
theorem ReadsFields.tail {acc fields : List (List UInt8 × JsonObject ρ)} {field : List UInt8 × JsonObject ρ} {room : Nat}
    (h : ReadsFields ops chunk flags acc (field :: fields) room) : ReadsFields ops chunk flags (acc ++ [field]) fields room where
  reads f hf := h.reads f (List.mem_cons_of_mem _ hf)
  wellFormed f hf := h.wellFormed f (List.mem_cons_of_mem _ hf)
  depth f hf := h.depth f (List.mem_cons_of_mem _ hf)
  key f hf := h.key f (List.mem_cons_of_mem _ hf)
  nodup := by
    have hnodup := h.nodup
    rwa [List.append_cons] at hnodup

/-- The fields behind the first one, each with a comma in front of it. -/
theorem yields_fields (hops : ops.Lawful) (fields acc : List (List UInt8 × JsonObject ρ)) {room : Nat}
    (h : ReadsFields ops chunk flags acc fields room) (hroom : room + (t.depth + 1) ≤ t.maxDepth)
    (ht : t.level = .inObject .objectSep acc) (hws : Blank ws) :
    Yields ops chunk ⟨t, obj, d, callsText (objectChildren ops flags level true fields) ++ (ws ++ 125 :: x :: more)⟩
      (.object (acc ++ fields)) x more := by
  induction fields generalizing t obj d acc ws with
  | nil =>
    rw [List.append_nil]
    exact yields_brace (.inr rfl) ht hws
  | cons field fields ih =>
    obtain ⟨key, v⟩ := field
    obtain ⟨ws0, hws0, hcomma⟩ := childPrefix_true flags (level + 1)
    obtain ⟨blank, hblank, hfield⟩ := objectChildren_cons level (h.key _ List.mem_cons_self) true v fields
    obtain ⟨ws1, c, rest, ws2, hrest, hws1, hc, hws2, hrest2⟩ :=
      exists_next (objectChildren_true ops flags level fields) hws endsValue_brace (x :: more)
    have htext : callsText (objectChildren ops flags level true ((key, v) :: fields)) ++ (ws ++ 125 :: x :: more) =
        44 :: (ws0 ++ 34 :: (escapeText key ++ 34 :: 58 ::
          (blank ++ (callsText (toJsonString ops flags (level + 1) v) ++ (ws1 ++ c :: rest))))) := by
      rw [← hrest, hfield, hcomma]
      simp
    obtain ⟨z, zs, hz⟩ : ∃ z zs,
        ws0 ++ 34 :: (escapeText key ++ 34 :: 58 ::
          (blank ++ (callsText (toJsonString ops flags (level + 1) v) ++ (ws1 ++ c :: rest)))) = z :: zs :=
      List.exists_cons_of_ne_nil (by simp)
    -- the comma, the field, and the fields behind it
    have heat : Reaches (tokRound ops chunk) ⟨t, obj, d, [] ++ 44 :: z :: zs⟩ ⟨t.setState t.savedState, obj, 44, 44 :: z :: zs⟩ :=
      reaches_eatws blank_nil (by rw [Tokener.state, ht]; rfl) rfl (by decide)
    have hsaved : t.savedState = .objectSep := by rw [Tokener.savedState, ht]; rfl
    generalize ht1 : ({ t with level := .inObject .objectFieldStartAfterSep acc } : Tokener ρ) = t1
    have hlevel1 : t1.level = .inObject .objectFieldStartAfterSep acc := ht1 ▸ rfl
    have hkeeps1 : t.Keeps t1 := ht1 ▸ ⟨rfl, rfl, rfl, rfl⟩
    have hsep : dispatch ops chunk ⟨t.setState t.savedState, obj, 44, 44 :: z :: zs⟩ = .next ⟨t1, obj, 44, 44 :: z :: zs⟩ := by
      rw [hsaved, ← ht1]
      simp [dispatch, Tokener.state, Tokener.setState, onObjectSep, TokRun.map, Tokener.eatThen, Tokener.setSaved, ht,
        Level.inObject]
    have hmax1 : t1.maxDepth = t.maxDepth := hkeeps1.maxDepth
    have hdepth1 : t1.depth = t.depth := congrArg List.length hkeeps1.levels
    have hdepth : v.depth + (t1.depth + 1) < t1.maxDepth := by
      have hlt : v.depth < room := h.depth _ List.mem_cons_self
      omega
    obtain ⟨t', obj', hreach, hkeeps, hlevel⟩ : ∃ t' obj', Reaches (tokRound ops chunk) ⟨t1, obj, z,
        ws0 ++ 34 :: (escapeText key ++ 34 :: 58 ::
          (blank ++ (callsText (toJsonString ops flags (level + 1) v) ++ (ws1 ++ c :: rest))))⟩
        ⟨t', obj', c, c :: rest⟩ ∧ t1.Keeps t' ∧ t'.level = .inObject .objectSep (acc ++ [(key, v)]) :=
      reaches_field hops (h.reads _ List.mem_cons_self) (h.wellFormed _ List.mem_cons_self) (h.key _ List.mem_cons_self) h.notMem
        (.inr rfl) hlevel1 hdepth hblank hws0 hws1 hc
    have hkeeps' := hkeeps1.trans hkeeps
    have hdepth' : t'.depth = t.depth := congrArg List.length hkeeps'.levels
    have htail : Yields ops chunk
        ⟨t', obj', c, callsText (objectChildren ops flags level true fields) ++ (ws2 ++ 125 :: x :: more)⟩
        (.object (acc ++ [(key, v)] ++ fields)) x more :=
      ih (acc ++ [(key, v)]) h.tail (by rw [hdepth', hkeeps'.maxDepth]; exact hroom) hlevel hws2
    rw [htext, hz]
    rw [hz] at hreach
    rw [hrest2, List.append_assoc] at htail
    exact Yields.of_reaches (heat.trans (Reaches.head (tokRound_of_next hsep (show (44 : UInt8) ≠ 0 by decide) rfl) hreach))
      ⟨hkeeps'.strict, hkeeps'.maxDepth, hkeeps'.err, hkeeps'.levels⟩ htail

/-- An object is read, field by field. -/
theorem reads_object (hops : ops.Lawful) {fields : List (List UInt8 × JsonObject ρ)}
    (h : ReadsFields ops chunk flags [] fields (depthFields fields)) : Reads ops chunk flags (.object fields) := by
  intro level t obj d x more ht hdepth _
  rw [JsonObject.depth] at hdepth
  obtain ⟨wsc, hwsc, hclosing⟩ := closing_text flags level (!fields.isEmpty) "\x7d"
  generalize ht1 : ({ t with level := .inObject .objectFieldStart [] } : Tokener ρ) = t1
  have hlevel1 : t1.level = .inObject .objectFieldStart [] := ht1 ▸ rfl
  have hkeeps1 : t.Keeps t1 := ht1 ▸ ⟨rfl, rfl, rfl, rfl⟩
  have htext : callsText (toJsonString ops flags level (.object fields)) ++ x :: more =
      123 :: (callsText (prettyBreak flags) ++
      (callsText (objectChildren ops flags level false fields) ++ (wsc ++ 125 :: x :: more))) := by
    simp [toJsonString, hclosing, PrintbufCall.bytes, bytesOf]
  obtain ⟨z, zs, hz⟩ : ∃ z zs, callsText (prettyBreak flags) ++
      (callsText (objectChildren ops flags level false fields) ++ (wsc ++ 125 :: x :: more)) = z :: zs :=
      List.exists_cons_of_ne_nil (by simp)
  have hopen : dispatch ops chunk ⟨t.setState .start, obj, 123, 123 :: z :: zs⟩ = .next ⟨t1, obj, 123, 123 :: z :: zs⟩ := by
    rw [← ht1]
    simp [dispatch, Tokener.state, Tokener.setState, onStart, TokRun.map, Tokener.eatThen, Tokener.setSaved, ht,
      Level.inObject, Level.fresh]
  rw [htext, hz]
  refine .of_start ht rfl (by decide)
    (Yields.of_reaches (Reaches.single (tokRound_of_next hopen (show (123 : UInt8) ≠ 0 by decide) rfl))
    ⟨hkeeps1.strict, hkeeps1.maxDepth, hkeeps1.err, hkeeps1.levels⟩ ?_)
  rw [← hz]
  cases fields with
  | nil =>
    rw [objectChildren, callsText_nil, List.nil_append, ← List.append_assoc]
    exact yields_brace (.inl rfl) hlevel1 ((blank_prettyBreak flags).append hwsc)
  | cons field fields =>
    obtain ⟨key, v⟩ := field
    obtain ⟨blank, hblank, hfield⟩ := objectChildren_cons level (h.key _ List.mem_cons_self) false v fields
    obtain ⟨ws1, c, rest, ws2, hrest, hws1, hc, hws2, hrest2⟩ :=
      exists_next (objectChildren_true ops flags level fields) hwsc endsValue_brace (x :: more)
    have hfirst : callsText (prettyBreak flags) ++
        (callsText (objectChildren ops flags level false ((key, v) :: fields)) ++ (wsc ++ 125 :: x :: more)) =
          (callsText (prettyBreak flags) ++ callsText (childPrefix flags (level + 1) false)) ++
            34 :: (escapeText key ++ 34 :: 58 ::
              (blank ++ (callsText (toJsonString ops flags (level + 1) v) ++ (ws1 ++ c :: rest)))) := by
      rw [← hrest, hfield]
      simp
    have hmax1 : t1.maxDepth = t.maxDepth := hkeeps1.maxDepth
    have hdepth1 : t1.depth = t.depth := congrArg List.length hkeeps1.levels
    have hroom : v.depth + (t1.depth + 1) < t1.maxDepth := by
      have hlt : v.depth < depthFields ((key, v) :: fields) := h.depth _ List.mem_cons_self
      omega
    obtain ⟨t', obj', hreach, hkeeps, hlevel⟩ : ∃ t' obj', Reaches (tokRound ops chunk) ⟨t1, obj, z,
        (callsText (prettyBreak flags) ++ callsText (childPrefix flags (level + 1) false)) ++
          34 :: (escapeText key ++ 34 :: 58 ::
            (blank ++ (callsText (toJsonString ops flags (level + 1) v) ++ (ws1 ++ c :: rest))))⟩
        ⟨t', obj', c, c :: rest⟩ ∧ t1.Keeps t' ∧ t'.level = .inObject .objectSep ([] ++ [(key, v)]) :=
      reaches_field hops (h.reads _ List.mem_cons_self) (h.wellFormed _ List.mem_cons_self) (h.key _ List.mem_cons_self) h.notMem
        (.inl rfl) hlevel1 hroom hblank ((blank_prettyBreak flags).append (blank_childPrefix flags (level + 1))) hws1 hc
    have hkeeps' := hkeeps1.trans hkeeps
    have hdepth' : t'.depth = t.depth := congrArg List.length hkeeps'.levels
    rw [hfirst]
    refine Yields.of_reaches hreach hkeeps ?_
    rw [← hrest2]
    exact yields_fields hops fields [(key, v)] h.tail (by rw [hdepth', hkeeps'.maxDepth]; omega) hlevel hws2

/-! ## Values -/

mutual

/-- The text of a value is read as the value, unless it has a negative infinity. -/
theorem reads_value (hops : ops.Lawful) : ∀ v : JsonObject ρ, v.WellFormed ops → ¬ v.HasNegInfinity ops → Reads ops chunk flags v
  | .null, _, _ => reads_null
  | .boolean b, _, _ => reads_boolean b
  | .int _, h, _ => reads_int h
  | .double _ none, h, hneg => by
    rcases h with rfl | rfl | rfl
    · exact reads_nan hops
    · exact reads_infinity hops
    · exact absurd rfl hneg
  | .double _ (some _), h, _ => reads_double h
  | .string s, _, _ => reads_string s
  | .array vals, h, hneg => reads_array hops (reads_vals hops vals h hneg) (wellFormedVals_iff.mp h)
  | .object fields, h, hneg => reads_object hops
      { reads := reads_fields hops fields h.2 hneg
        wellFormed := fun f hf => (wellFormedFields_iff.mp h.2 f hf).2
        depth := depthFields_le.mp (Nat.le_refl _)
        key := fun f hf => (wellFormedFields_iff.mp h.2 f hf).1
        nodup := h.1 }

/-- Each value of an array is read back. -/
theorem reads_vals (hops : ops.Lawful) : ∀ vals : List (JsonObject ρ), WellFormedVals ops vals → ¬ HasNegInfinityVals ops vals →
    ∀ v ∈ vals, Reads ops chunk flags v
  | [], _, _ => fun _ hv => absurd hv List.not_mem_nil
  | v :: vals, h, hneg => by
    have hv : Reads ops chunk flags v := reads_value hops v h.1 fun hv => hneg (.inl hv)
    have hvals := reads_vals hops vals h.2 fun hvals => hneg (.inr hvals)
    exact List.forall_mem_cons.mpr ⟨hv, hvals⟩

/-- Each value of an object is read back. -/
theorem reads_fields (hops : ops.Lawful) : ∀ fields : List (List UInt8 × JsonObject ρ), WellFormedFields ops fields →
      ¬ HasNegInfinityFields ops fields → ∀ f ∈ fields, Reads ops chunk flags f.2
  | [], _, _ => fun _ hf => absurd hf List.not_mem_nil
  | (key, v) :: fields, h, hneg => by
    have hv : Reads ops chunk flags v := reads_value hops v h.1.2 fun hv => hneg (.inl hv)
    have hfields := reads_fields hops fields h.2 fun hfields => hneg (.inr hfields)
    exact List.forall_mem_cons.mpr ⟨hv, hfields⟩

end

/-! ## Calls -/

/-- From the end of the text the tokener comes to `out` with the value. -/
theorem ends_with_value (ops : DoubleOps ρ) (obj : JsonObject ρ) (hlevel : t.level = .finished v) (hlevels : t.levels = [])
    (herr : t.err = .success) : ∃ s, Reaches (tokRound ops false) ⟨t, obj, 0, [0]⟩ s ∧ tokRound ops false s = .inr (.out s) ∧
      (parseOut s).ret = v ∧ (parseOut s).tok.err = .success ∧ (parseOut s).left = [0] := by
  have hst : t.state = .eatws := by rw [Tokener.state, hlevel]; rfl
  have hsaved : t.savedState = .finish := by rw [Tokener.savedState, hlevel]; rfl
  have hreach : Reaches (tokRound ops false) ⟨t, obj, 0, [] ++ [0]⟩ ⟨t.setState t.savedState, obj, 0, [0]⟩ :=
    reaches_eatws blank_nil hst (by decide) (by decide)
  rw [hsaved] at hreach
  have houtErr : outErr ⟨t.setState .finish, obj, 0, [0]⟩ = .success := by
    simp [outErr, Tokener.setState, Tokener.state, herr]
  refine ⟨_, hreach, ?_, ?_, ?_, ?_⟩
  · simp [tokRound, dispatch, Tokener.setState, Tokener.state, onFinish, hlevels, Outcome.resume]
  · rw [parseOut, houtErr, if_pos rfl]
    simp only [Tokener.setState, hlevel, Level.finished]
  · rw [parseOut, houtErr, if_pos rfl]
  · rw [parseOut, houtErr, if_pos rfl]

/-- A text that yields a value is parsed to the value. -/
theorem parse_of_yields {text : List UInt8} (depth : Nat) (strict : Bool) (hlen : text.length ≤ intMax)
    (h : ∀ d, Yields ops false ⟨jsonTokenerNewEx depth strict, .null, d, text ++ [0]⟩ v 0 []) :
    ∃ n r, (∀ rounds ≥ n, jsonTokenerParseEx ops rounds (jsonTokenerNewEx depth strict) text false = some (some r)) ∧
      r.ret = v ∧ r.tok.err = .success ∧ r.left = [0] := by
  obtain ⟨c, rest, hc⟩ : ∃ c rest, text ++ [0] = c :: rest := List.exists_cons_of_ne_nil (by simp)
  obtain ⟨t, obj, hreach, hkeeps, hlevel⟩ := h c
  obtain ⟨s, hreach', hround, hret, herr, hleft⟩ := ends_with_value ops obj hlevel hkeeps.levels hkeeps.err
  obtain ⟨n, hloop⟩ := (hreach.trans hreach').loop_eq hround
  refine ⟨n, parseOut s, fun rounds hrounds => ?_, hret, herr, hleft⟩
  have hloop' := loop_mono hloop hrounds
  rw [hc] at hloop'
  simp only [jsonTokenerParseEx, Nat.not_lt.mpr hlen, and_false, if_false, Bool.false_eq_true, hc]
  exact congrArg (Option.map _) hloop'

end Pixel845.Json
