import Pixel845.Lemmas.JsonTokenerRun

/-!
# What the tokener accepts

A value that a call returns with success is one that a text can have, whatever was read before and wherever the text was cut into
chunks.
-/

namespace Pixel845.Json

/-- A value that is returned is well formed, and has no more levels than the tokener. -/
theorem accepted_wellFormed {ρ : Type} (ops : DoubleOps ρ) (depth : Nat) (hdepth : 0 < depth) (t : Tokener ρ)
    (ht : TokenerReachable ops depth t) (rounds : Nat) (str : List UInt8) (chunk : Bool) (r : Parsed ρ)
    (hparse : jsonTokenerParseEx ops rounds t str chunk = some (some r))
    (herr : r.tok.err = .success) : r.ret.WellFormed ops ∧ r.ret.depth < depth :=
  (returned_parse (calm_reachable hdepth ht) hparse).value herr

/-- The rule for a value that came in two chunks. -/
theorem accepted_wellFormed_chunks :
    (JsonObject.array [.int 12, .object [([97], .int (-9223372036854775808)), ([98], .null)]]).WellFormed smallOps ∧
      (JsonObject.array [.int 12, .object [([97], .int (-9223372036854775808)), ([98], .null)]] :
        JsonObject SmallDouble).depth < 3 := by
  -- the first chunk ends in a number, two levels deep
  have hfirst : jsonTokenerParseEx smallOps 100 (jsonTokenerNewEx 3 false) (bytesOf "[ 0012, \x7b'a' : 0.5") true = some (some
      { ret := .null
        tok := { strict := false, maxDepth := 3, pb := bytesOf "0.5", isDouble := true, stPos := 0, err := .continue
                 ucsChar := 0, quoteChar := 39
                 level := { state := .number, savedState := .start, current := .null, objFieldName := none }
                 levels := [
                   { state := .objectValueAdd, savedState := .objectValue, current := .object [], objFieldName := some [97] },
                   { state := .arrayAdd, savedState := .arrayAfterSep, current := .array [.int 12], objFieldName := none }] }
        left := [] }) := rfl
  have hsecond : jsonTokenerParseEx smallOps 100
      { strict := false, maxDepth := 3, pb := bytesOf "0.5", isDouble := true, stPos := 0, err := .continue
        ucsChar := 0, quoteChar := 39
        level := { state := .number, savedState := .start, current := .null, objFieldName := none }
        levels := [{ state := .objectValueAdd, savedState := .objectValue, current := .object [], objFieldName := some [97] },
          { state := .arrayAdd, savedState := .arrayAfterSep, current := .array [.int 12], objFieldName := none }] }
      (bytesOf "0, 'b' : null, 'a' : -9999999999999999999 \x7d ] ") true = some (some
      { ret := .array [.int 12, .object [([97], .int (-9223372036854775808)), ([98], .null)]]
        tok := { strict := false, maxDepth := 3, pb := bytesOf "-9999999999999999999", isDouble := false, stPos := 4
                 err := .success, ucsChar := 0, quoteChar := 39, level := .fresh, levels := [] }
        left := [] }) := rfl
  exact accepted_wellFormed smallOps 3 (by decide) _ (.parse (.new false) hfirst) 100 _ true _ hsecond rfl

end Pixel845.Json
