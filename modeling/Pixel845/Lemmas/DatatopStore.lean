import Pixel845.Lemmas.DatatopStr
import Mathlib.Data.List.Forall2

/-!
# Helpers: calls of dtop_store_dp

What a list of calls leaves: each data point has stored the strings it was given, in order, and no other has changed. The calls
are defined exactly if they stay within the data points.
-/

namespace Pixel845.Datatop

/-- Line buffers for some lines, cleared. -/
def Vars.cleared (lineSize lineCount : Nat) : Vars := ⟨lineSize, lineCount, fun _ => Image.zero⟩

/-- A data point with nothing in it. -/
def DataPoint.blank : DataPoint := ⟨.copy [], none, .other, Image.zero, true, Image.zero, true⟩

/-- A store keeps the type. -/
theorem storeDp_type (dp : DataPoint) (str : List UInt8) : (storeDp dp str).type = dp.type := by
  unfold storeDp
  simp only
  split <;> rfl

/-- The data are what the string was converted to. -/
theorem storeDp_data (dp : DataPoint) (str : List UInt8) : (storeDp dp str).data = sscanf dp.type str dp.data := by
  unfold storeDp
  simp only
  split <;> rfl

/-- What a poll may not change of a data point. -/
def DataPoint.fixed (dp : DataPoint) : Str × Option Str × DpType × Bool := (dp.name, dp.pfx, dp.type, dp.skip)

/-- A store changes none of that. -/
theorem storeDp_fixed (dp : DataPoint) (str : List UInt8) : (storeDp dp str).fixed = dp.fixed := by
  rw [storeDp]
  split
  · rfl
  · rfl

/-- Nor do several. -/
theorem foldl_fixed (strs : List (List UInt8)) (dp : DataPoint) : (strs.foldl storeDp dp).fixed = dp.fixed := by
  induction strs generalizing dp with
  | nil => rfl
  | cons s strs ih => rw [List.foldl_cons, ih, storeDp_fixed]

/-- A data point that is given a value, or none. -/
def DataPoint.given (dp : DataPoint) (v : Option (List UInt8)) : DataPoint := v.elim dp fun v => storeDp dp (cText v)

/-- The strings a data point is given. -/
def callsAt (calls : List (Nat × Ptr)) (d : Nat) : List Ptr := (calls.filter (·.1 == d)).map Prod.snd

@[simp] theorem callsAt_nil (d : Nat) : callsAt [] d = [] := rfl

/-- The first call is for the number or not. -/
theorem callsAt_cons (call : Nat × Ptr) (calls : List (Nat × Ptr)) (d : Nat) :
    callsAt (call :: calls) d = (if call.1 = d then [call.2] else []) ++ callsAt calls d := by
  rw [callsAt, List.filter_cons]
  by_cases h : call.1 = d
  · simp [h, callsAt]
  · simp [h, callsAt]

/-- The strings a data point is given are those of its calls. -/
theorem mem_callsAt {calls : List (Nat × Ptr)} {d : Nat} {p : Ptr} : p ∈ callsAt calls d ↔ (d, p) ∈ calls := by
  rw [callsAt, List.mem_map]
  constructor
  · rintro ⟨⟨d', p'⟩, hmem, rfl⟩
    obtain ⟨hcall, hd⟩ := List.mem_filter.mp hmem
    obtain rfl : d' = d := by simpa using hd
    exact hcall
  · exact fun h => ⟨(d, p), List.mem_filter.mpr ⟨h, by simp⟩, rfl⟩

/-- The calls of two lists. -/
theorem callsAt_append (calls calls' : List (Nat × Ptr)) (d : Nat) :
    callsAt (calls ++ calls') d = callsAt calls d ++ callsAt calls' d := by
  simp [callsAt]

/-- One call for each data point of a range. -/
theorem callsAt_offset (a : Nat) (f : Nat → Ptr) (n d : Nat) :
    callsAt ((List.range n).map fun i => (a + i, f i)) d = if a ≤ d ∧ d < a + n then [f (d - a)] else [] := by
  induction n with
  | zero => simp
  | succ n ih =>
    rw [List.range_succ, List.map_append, callsAt_append, ih, List.map_singleton, callsAt_cons]
    by_cases hd : a + n = d
    · subst hd
      simp
    · by_cases hlt : a ≤ d ∧ d < a + n
      · simp [hlt, hd, show d < a + (n + 1) by omega]
      · simp [hd, hlt, show ¬(a ≤ d ∧ d < a + (n + 1)) by omega]

/-- Where each number has one call, it is this one. -/
theorem callsAt_range (f : Nat → Ptr) (n d : Nat) :
    callsAt ((List.range n).map fun i => (i, f i)) d = if d < n then [f d] else [] := by
  simpa using callsAt_offset 0 f n d

/-- No call for a data point is none of its number. -/
theorem callsAt_eq_nil {calls : List (Nat × Ptr)} {d : Nat} (h : ∀ call ∈ calls, call.1 ≠ d) : callsAt calls d = [] := by
  rw [callsAt, List.filter_eq_nil_iff.mpr fun call hcall => by simpa using h call hcall, List.map_nil]

/-- Calls that are made data point by data point. -/
theorem callsAt_zipIdx {α : Type} {f : α × Nat → List (Nat × Ptr)} {l : List α}
    (h : ∀ x ∈ l.zipIdx, ∀ call ∈ f x, call.1 = x.2) (d : Nat) : callsAt (l.zipIdx.map f).flatten d = (l[d]?).elim []
      fun a => (f (a, d)).map Prod.snd := by
  have hind : ∀ (l : List α) n, (∀ x ∈ l.zipIdx n, ∀ call ∈ f x, call.1 = x.2) →
      callsAt ((l.zipIdx n).map f).flatten d = if n ≤ d then (l[d - n]?).elim [] fun a => (f (a, d)).map Prod.snd else [] := by
    intro l
    induction l with
    | nil => simp
    | cons a l ih =>
      intro n h
      rw [List.zipIdx_cons] at h ⊢
      obtain ⟨ha, hl⟩ := List.forall_mem_cons.mp h
      rw [List.map_cons, List.flatten_cons, callsAt_append, ih (n + 1) hl]
      by_cases hd : n = d
      · subst hd
        have hall : (f (a, n)).filter (·.1 == n) = f (a, n) := List.filter_eq_self.mpr fun call hcall => by
          simpa using ha call hcall
        rw [if_neg (by omega), if_pos (Nat.le_refl n), List.append_nil, callsAt, hall, Nat.sub_self]
        rfl
      · rw [callsAt_eq_nil fun call hcall => by rw [ha call hcall]; exact hd, List.nil_append]
        by_cases hlt : n < d
        · rw [if_pos (by omega), if_pos (by omega), show d - n = d - (n + 1) + 1 by omega, List.getElem?_cons_succ]
        · rw [if_neg (by omega), if_neg (by omega)]
  simpa using hind l 0 h

/-- Calls of several rounds of which one is made. -/
theorem callsAt_range_single {g : Nat → List (Nat × Ptr)} {k m d : Nat} (hk : k < m) (h : ∀ j < m, j ≠ k → callsAt (g j) d = []) :
    callsAt ((List.range m).map g).flatten d = callsAt (g k) d := by
  induction m with
  | zero => omega
  | succ m ih =>
    rw [List.range_succ, List.map_append, List.flatten_append, callsAt_append, List.map_singleton, List.flatten_singleton]
    by_cases hkm : k = m
    · subst hkm
      have hnil : ∀ n ≤ k, callsAt ((List.range n).map g).flatten d = [] := by
        intro n
        induction n with
        | zero => simp
        | succ n ih =>
          intro hn
          rw [List.range_succ, List.map_append, List.flatten_append, callsAt_append, List.map_singleton, List.flatten_singleton,
            ih (by omega), h n (by omega) (by omega), List.append_nil]
      rw [hnil k (Nat.le_refl k), List.nil_append]
    · rw [ih (by omega) fun j hj hne => h j (by omega) hne, h m (by omega) (fun heq => hkm heq.symm), List.append_nil]

/-- A defined traversal gives an answer for each element. -/
theorem mapM_eq_some {α β : Type} {f : α → Option β} {l : List α} {ys : List β} :
    l.mapM f = some ys ↔ List.Forall₂ (fun a y => f a = some y) l ys := by
  induction l generalizing ys with
  | nil => simp [eq_comm]
  | cons a l ih =>
    simp only [List.mapM_cons, Option.bind_eq_bind, Option.bind_eq_some_iff, Option.pure_def, Option.some.injEq, ih]
    constructor
    · rintro ⟨y, hy, ys', hys, rfl⟩
      exact .cons hy hys
    · intro h
      cases h with
      | cons hy hys => exact ⟨_, hy, _, hys, rfl⟩

/-- A map that succeeds everywhere succeeds. -/
theorem mapM_some {α β : Type} {f : α → Option β} {g : α → β} {l : List α} (h : ∀ a ∈ l, f a = some (g a)) :
    l.mapM f = some (l.map g) := by
  rw [mapM_eq_some, List.forall₂_map_right_iff, List.forall₂_same]
  exact h

/-- A traversal is defined exactly if it is for each element. -/
theorem mapM_isSome_iff {α β : Type} {f : α → Option β} {l : List α} :
    (∃ ys, l.mapM f = some ys) ↔ ∀ a ∈ l, ∃ y, f a = some y := by
  induction l with
  | nil => simp
  | cons a l ih =>
    rw [List.forall_mem_cons, ← ih]
    constructor
    · rintro ⟨ys, h⟩
      simp only [List.mapM_cons, Option.bind_eq_bind, Option.bind_eq_some_iff] at h
      obtain ⟨y, hy, ys', hys, -⟩ := h
      exact ⟨⟨y, hy⟩, ys', hys⟩
    · rintro ⟨⟨y, hy⟩, ys, hys⟩
      exact ⟨y :: ys, by simp [hy, hys]⟩

variable {vars : Vars} {calls : List (Nat × Ptr)} {points points' : List DataPoint}

/-- The first call stores its value before the others do. -/
theorem storeAll_cons (call : Nat × Ptr) :
    storeAll vars (call :: calls) points =
      (points[call.1]?).bind fun dp => storeAll vars calls (points.set call.1 (storeDp dp (vars.cstr call.2))) := by
  simp only [storeAll, List.foldlM_cons, Option.bind_eq_bind, Option.pure_def, Option.bind_assoc, Option.bind_some]

variable (vars) in
/-- Calls within the data points are defined. -/
theorem storeAll_isSome (h : ∀ call ∈ calls, call.1 < points.length) : ∃ points', storeAll vars calls points = some points' := by
  induction calls generalizing points with
  | nil => exact ⟨points, rfl⟩
  | cons call calls ih =>
    rw [storeAll_cons, List.getElem?_eq_getElem (h call List.mem_cons_self), Option.bind_some]
    exact ih fun call' hmem => by
      rw [List.length_set]
      exact h call' (List.mem_cons_of_mem call hmem)

/-- What defined calls leave. The induction is on the calls; the data point called first has stored its string before
the others. -/
theorem storeAll_eq (h : storeAll vars calls points = some points') :
    (∀ call ∈ calls, call.1 < points.length) ∧ points'.length = points.length ∧
      ∀ d : Nat, points'[d]? = (points[d]?).map fun dp => ((callsAt calls d).map vars.cstr).foldl storeDp dp := by
  induction calls generalizing points with
  | nil =>
    obtain rfl : points = points' := Option.some.inj h
    exact ⟨by simp, rfl, fun d => by simp⟩
  | cons call calls ih =>
    rw [storeAll_cons, Option.bind_eq_some_iff] at h
    obtain ⟨dp, hdp, h⟩ := h
    obtain ⟨hmem, hlen, hget⟩ := ih h
    have hlt := (List.getElem?_eq_some_iff.mp hdp).1
    rw [List.length_set] at hmem hlen
    refine ⟨List.forall_mem_cons.mpr ⟨hlt, hmem⟩, hlen, ?_⟩
    intro d
    rw [hget, callsAt_cons, List.getElem?_set]
    by_cases hd : call.1 = d
    · subst hd
      simp only [if_true, hlt, hdp, Option.map_some, List.cons_append, List.nil_append, List.map_cons, List.foldl_cons]
    · simp [hd]

/-- A data point that is called once stores the string that it is called with. -/
theorem storeAll_single (h : storeAll vars calls points = some points') {d : Nat} {p : Ptr} (hcall : callsAt calls d = [p]) :
    points'[d]? = (points[d]?).map (storeDp · (vars.cstr p)) := by
  rw [(storeAll_eq h).2.2 d, hcall]
  rfl

/-- A data point that is not called stays as it is. -/
theorem storeAll_untouched (h : storeAll vars calls points = some points') {d : Nat} (hcall : callsAt calls d = []) :
    points'[d]? = points[d]? := by
  rw [(storeAll_eq h).2.2 d, hcall]
  exact Option.map_id'

/-- Calls leave of every data point what a poll may not change. -/
theorem storeAll_fixed (h : storeAll vars calls points = some points') :
    points'.map DataPoint.fixed = points.map DataPoint.fixed := by
  refine List.ext_getElem? ?_
  intro d
  rw [List.getElem?_map, List.getElem?_map, (storeAll_eq h).2.2 d, Option.map_map]
  cases points[d]? with
  | none => rfl
  | some dp => exact congrArg some (foldl_fixed _ dp)

/-! ## Polls -/

/-- The states of a registered gatherer after any polls that are defined; a file that cannot be read changes nothing. -/
inductive AfterPolls (poll : List UInt8 → Image → Gatherer → Option (Option Gatherer)) (registered : Gatherer) : Gatherer → Prop
  | registered : AfterPolls poll registered registered
  | poll {dpg : Gatherer} {r : Option Gatherer} (content : List UInt8) (rest : Image) (h : AfterPolls poll registered dpg)
      (hpoll : poll content rest dpg = some r) : AfterPolls poll registered (r.getD dpg)

/-- What holds of the registered gatherer and is kept by every poll holds after any polls. -/
theorem AfterPolls.keeps {poll : List UInt8 → Image → Gatherer → Option (Option Gatherer)} {registered dpg : Gatherer}
    {P : Gatherer → Prop} (h : AfterPolls poll registered dpg) (h0 : P registered)
    (hstep : ∀ content rest dpg dpg', P dpg → poll content rest dpg = some (some dpg') → P dpg') : P dpg := by
  induction h with
  | registered => exact h0
  | @poll dpg r content rest _ hpoll ih =>
    cases r with
    | none => exact ih
    | some dpg' => exact hstep content rest dpg dpg' ih hpoll

end Pixel845.Datatop
