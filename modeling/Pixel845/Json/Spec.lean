import Pixel845.Json.Tokener

/-!
# Values that a text can have

What there is to say about a value: how deep it is, whether a text can have it, and whether a negative infinity is in it.
-/

namespace Pixel845.Json

variable {ρ : Type} (ops : DoubleOps ρ)

/-- What the C library says about the three values that are no finite numbers. -/
structure DoubleOps.Lawful : Prop where
  nan : ops.isnan ops.nan = true
  infinity : ops.isnan ops.infinity = false ∧ ops.isinf ops.infinity = true ∧ ops.isPositive ops.infinity = true
  negInfinity : ops.isnan ops.negInfinity = false ∧ ops.isinf ops.negInfinity = true ∧ ops.isPositive ops.negInfinity = false

/-- A few values in floating point, as far as an example needs them. -/
inductive SmallDouble where
  | half | infinity | negInfinity | nan
deriving DecidableEq

/-- What the C library does with these. -/
def smallOps : DoubleOps SmallDouble where
  isnan := (· = .nan)
  isinf d := d = .infinity ∨ d = .negInfinity
  isPositive d := d = .half ∨ d = .infinity
  format _ := bytesOf "0.5"
  scan buf := if buf = bytesOf "0.5" ∨ buf = bytesOf "0.50" ∨ buf = bytesOf "5e-1" then some .half else none
  infinity := .infinity
  negInfinity := .negInfinity
  nan := .nan

theorem smallOps_lawful : smallOps.Lawful := ⟨rfl, ⟨rfl, rfl, rfl⟩, ⟨rfl, rfl, rfl⟩⟩

mutual

/-- How many arrays and objects are inside one another, counted up to the last one that is not empty. -/
def JsonObject.depth : JsonObject ρ → Nat
  | .null | .boolean _ | .int _ | .double .. | .string _ => 0
  | .array vals => depthVals vals
  | .object fields => depthFields fields

def depthVals : List (JsonObject ρ) → Nat
  | [] => 0
  | val :: vals => max (val.depth + 1) (depthVals vals)

def depthFields : List (List UInt8 × JsonObject ρ) → Nat
  | [] => 0
  | (_, val) :: fields => max (val.depth + 1) (depthFields fields)

end

/-- The range of an `int64_t`. -/
def Int64 (i : Int) : Prop := -9223372036854775808 ≤ i ∧ i ≤ 9223372036854775807

/-- A text that `sscanf` reads as a `double`, and that the tokener takes for one number. -/
structure DoubleText (d : ρ) (ds : List UInt8) : Prop where
  head : ∃ c cs, ds = c :: cs ∧ (isDigit c = true ∨ c = 45)
  chars : ∀ c ∈ ds, isNumberChar c = true
  isDouble : ds.any isDoubleChar = true
  scan : ops.scan ds = some d

mutual

/-- A text can have the value: integers are in range, a `double` has its text unless it is no finite number, and the keys of an
object are different C strings. -/
def JsonObject.WellFormed : JsonObject ρ → Prop
  | .null | .boolean _ | .string _ => True
  | .int i => Int64 i
  | .double d none => d = ops.nan ∨ d = ops.infinity ∨ d = ops.negInfinity
  | .double d (some ds) => DoubleText ops d ds
  | .array vals => WellFormedVals vals
  | .object fields => (fields.map Prod.fst).Nodup ∧ WellFormedFields fields

def WellFormedVals : List (JsonObject ρ) → Prop
  | [] => True
  | val :: vals => val.WellFormed ∧ WellFormedVals vals

def WellFormedFields : List (List UInt8 × JsonObject ρ) → Prop
  | [] => True
  | (key, val) :: fields => ((∀ c ∈ key, c ≠ 0) ∧ val.WellFormed) ∧ WellFormedFields fields

end

mutual

/-- A negative infinity is in the value. -/
def JsonObject.HasNegInfinity : JsonObject ρ → Prop
  | .null | .boolean _ | .string _ | .int _ | .double _ (some _) => False
  | .double d none => d = ops.negInfinity
  | .array vals => HasNegInfinityVals vals
  | .object fields => HasNegInfinityFields fields

def HasNegInfinityVals : List (JsonObject ρ) → Prop
  | [] => False
  | val :: vals => val.HasNegInfinity ∨ HasNegInfinityVals vals

def HasNegInfinityFields : List (List UInt8 × JsonObject ρ) → Prop
  | [] => False
  | (_, val) :: fields => val.HasNegInfinity ∨ HasNegInfinityFields fields

end

variable {ops}

/-! ## Children -/

theorem depthVals_le {vals : List (JsonObject ρ)} {n : Nat} : depthVals vals ≤ n ↔ ∀ v ∈ vals, v.depth < n := by
  induction vals with
  | nil => simp [depthVals]
  | cons v vals ih => rw [depthVals, Nat.max_le, ih, List.forall_mem_cons, Nat.succ_le_iff]

theorem depthFields_le {fields : List (List UInt8 × JsonObject ρ)} {n : Nat} :
    depthFields fields ≤ n ↔ ∀ f ∈ fields, f.2.depth < n := by
  induction fields with
  | nil => simp [depthFields]
  | cons f fields ih => rw [depthFields, Nat.max_le, ih, List.forall_mem_cons, Nat.succ_le_iff]

theorem wellFormedVals_iff {vals : List (JsonObject ρ)} : WellFormedVals ops vals ↔ ∀ v ∈ vals, v.WellFormed ops := by
  induction vals with
  | nil => simp [WellFormedVals]
  | cons v vals ih => rw [WellFormedVals, ih, List.forall_mem_cons]

theorem wellFormedFields_iff {fields : List (List UInt8 × JsonObject ρ)} :
    WellFormedFields ops fields ↔ ∀ f ∈ fields, (∀ c ∈ f.1, c ≠ 0) ∧ f.2.WellFormed ops := by
  induction fields with
  | nil => simp [WellFormedFields]
  | cons f fields ih => rw [WellFormedFields, ih, List.forall_mem_cons]

/-! ## Tokeners -/

variable (ops)

/-- The tokeners that calls can lead to: one is made with a depth, and is reset, given flags or given a text in any order. -/
inductive TokenerReachable (depth : Nat) : Tokener ρ → Prop where
  | new (strict : Bool) : TokenerReachable depth (jsonTokenerNewEx depth strict)
  | reset {t : Tokener ρ} (h : TokenerReachable depth t) : TokenerReachable depth (jsonTokenerReset t)
  | setFlags {t : Tokener ρ} (strict : Bool) (h : TokenerReachable depth t) : TokenerReachable depth
    (jsonTokenerSetFlags t strict)
  | parse {t : Tokener ρ} {rounds : Nat} {str : List UInt8} {chunk : Bool} {r : Parsed ρ} (h : TokenerReachable depth t)
      (hparse : jsonTokenerParseEx ops rounds t str chunk = some (some r)) : TokenerReachable depth r.tok

/-- A text that ends within an escape of a code unit, with three of its digits. -/
def EndsInEscape (text : List UInt8) : Prop :=
  ∃ a d₁ d₂ d₃, text = a ++ [92, 117, d₁, d₂, d₃] ∧ isHexChar d₁ = true ∧ isHexChar d₂ = true ∧ isHexChar d₃ = true

/-- All digits of a code unit are taken, and the tokener asks for another one: the next shift is not defined. -/
def Tokener.Broken (t : Tokener ρ) : Prop := t.state = .escapeUnicode ∧ 4 ≤ t.stPos

/-- A tokener is given one chunk after the other. -/
def jsonTokenerFeed (rounds : Nat) (t : Tokener ρ) (chunks : List (List UInt8)) : Option (Tokener ρ) :=
  chunks.foldlM (fun t str => (jsonTokenerParseEx ops rounds t str true).join.map Parsed.tok) t

end Pixel845.Json
