import Pixel845.Lemmas.JsonTokenerStep

/-!
# Calls of the tokener

What a call of `json_tokener_parse_ex` does as a whole, from what every round keeps: the tokener keeps its invariant over all
calls, and the loop of a call ends.
-/

namespace Pixel845.Json

variable {ρ : Type} {ops : DoubleOps ρ} {chunk : Bool} {t : Tokener ρ} {s : TokRun ρ} {max depth rounds : Nat} {str : List UInt8}
  {r : Parsed ρ} {c : UInt8} {rest : List UInt8}

/-- The state of a run at its first byte. -/
def startRun (t : Tokener ρ) (c : UInt8) (rest : List UInt8) : TokRun ρ :=
  { tok := { t with err := .success }, obj := .null, c := c, str := c :: rest }

/-- A call starts soundly. -/
theorem sound_startRun (h : t.Calm ops max) (c : UInt8) (rest : List UInt8) : (startRun t c rest).Sound ops max where
  tok := ⟨h.sound.maxDepth, h.sound.level, h.sound.levels, h.sound.number⟩
  head := rfl
  wellFormed := trivial
  depth := fun hadd => absurd hadd (not_or.mpr h.notAdding)
  digit := fun hst hpb => absurd hpb (h.started hst)

/-- What a call returns with success is a value of the top level. -/
structure Returned (ops : DoubleOps ρ) (max : Nat) (r : Parsed ρ) : Prop where
  tok : r.tok.Calm ops max
  value : r.tok.err = .success → r.ret.WellFormed ops ∧ r.ret.depth < max

/-- What is returned at the end of a call. -/
theorem returned_parseOut (h : s.tok.Calm ops max) : Returned ops max (parseOut s) := by
  have hdepth := h.sound.level.depth
  unfold parseOut
  simp only
  split
  · have hlevels : (s.tok.levels.map fun _ => (Level.fresh : Level ρ)).length = s.tok.depth := List.length_map ..
    refine ⟨⟨⟨h.sound.maxDepth, ?_, ?_, (by rintro ⟨⟩)⟩, ⟨(by rintro ⟨⟩), (by rintro ⟨⟩)⟩, (by rintro ⟨⟩)⟩, fun _ =>
      ⟨h.sound.level.wellFormed, ?_⟩⟩
    · rw [Tokener.depth, hlevels]
      exact level_sound_fresh ops h.sound.level.lt
    · exact levelsSound_fresh s.tok.levels h.sound.level.lt.le
    · simp only
      omega
  · rename_i herr
    exact ⟨⟨⟨h.sound.maxDepth, h.sound.level, h.sound.levels, h.sound.number⟩, h.notAdding, h.started⟩, fun hok =>
      absurd hok herr⟩

/-- A call that gives something: it is too long, it has no bytes, or its loop ends at `out`. -/
theorem parse_cases (hparse : jsonTokenerParseEx ops rounds t str chunk = some (some r)) :
    r = { ret := .null, tok := { t with err := .errorSize }, left := str } ∨
      r = parseOut { tok := ({ t with err := .success } : Tokener ρ).peekErr, obj := .null, c := 1, str := [] } ∨
      ∃ c rest s, (if chunk then str else str ++ [0]) = c :: rest ∧ loop (tokRound ops chunk) rounds (startRun t c rest) =
        some (.out s) ∧ r = parseOut s := by
  unfold jsonTokenerParseEx at hparse
  simp only at hparse
  split at hparse
  · cases hparse
    exact .inl rfl
  · split at hparse
    · cases hparse
      exact .inr (.inl rfl)
    · rename_i c rest htext
      obtain ⟨e, hloop, he⟩ := Option.map_eq_some_iff.mp hparse
      split at he
      · cases he
        exact .inr (.inr ⟨c, rest, _, htext, hloop, rfl⟩)
      · cases he

/-- What a call returns. -/
theorem returned_parse (h : t.Calm ops max) (hparse : jsonTokenerParseEx ops rounds t str chunk = some (some r)) :
    Returned ops max r := by
  have hcalm : ∀ err, ({ t with err := err } : Tokener ρ).Calm ops max := fun err =>
    ⟨⟨h.sound.maxDepth, h.sound.level, h.sound.levels, h.sound.number⟩, h.notAdding, h.started⟩
  rcases parse_cases hparse with rfl | rfl | ⟨c, rest, s, -, hloop, rfl⟩
  · exact ⟨hcalm _, (by rintro ⟨⟩)⟩
  · exact returned_parseOut (calm_peekErr (hcalm _))
  · obtain ⟨s', hs', hround⟩ := loop_induction (P := fun s => s.Sound ops max)
      (fun s s' hs hround => (hround ▸ sound_tokRound chunk hs : RoundSound ops max chunk s (.inl s')).1) hloop
      (sound_startRun h c rest)
    exact returned_parseOut (hround ▸ sound_tokRound chunk hs' : RoundSound ops max chunk s' (.inr (.out s))).1

/-- The invariant holds of every tokener that calls can lead to. -/
theorem calm_reachable (hdepth : 0 < depth) (h : TokenerReachable ops depth t) : t.Calm ops depth := by
  induction h with
  | new strict =>
    exact ⟨⟨rfl, level_sound_fresh ops hdepth, trivial, (by rintro ⟨⟩)⟩, ⟨(by rintro ⟨⟩), (by rintro ⟨⟩)⟩, (by rintro ⟨⟩)⟩
  | reset _ ih =>
    exact ⟨⟨ih.sound.maxDepth, level_sound_fresh ops hdepth, trivial, (by rintro ⟨⟩)⟩, ⟨(by rintro ⟨⟩), (by rintro ⟨⟩)⟩,
      (by rintro ⟨⟩)⟩
  | setFlags strict _ ih =>
    exact ⟨⟨ih.sound.maxDepth, ih.sound.level, ih.sound.levels, ih.sound.number⟩, ih.notAdding, ih.started⟩
  | parse _ hparse ih => exact (returned_parse ih hparse).tok

end Pixel845.Json
