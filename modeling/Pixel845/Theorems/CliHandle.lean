import Pixel845.Lemmas.RmnetCli

/-!
# The handle of the command line

`rmnet_api_call` initialises at most one handle. It releases the handle once where the command misses an argument or has no
memory, twice where the command makes its call or is not known, and never where the command itself is missing
(`released_once_iff`).
-/

namespace Pixel845.Rmnet

/-- Every handle that is initialised is released once, and not used after that. -/
def ReleasedOnce (t : CliEvents) : Prop :=
  ∀ before after, handleUses t = before ++ .init :: after → after.count .release = 1 ∧ after.getLast? = some .release

namespace CliHandleAux

variable {args : List CString} {t : CliEvents} {us : List HandleUse} {rc : Int} {base : Nat} {c : CliCommand}

/-- A handle that is not opened is released as often. -/
theorem releasedOnce_closed (h : handleUses t = []) : ReleasedOnce t := by
  intro before after hu
  rw [h] at hu
  simp at hu

/-- One handle is initialised, before anything else. -/
theorem releasedOnce_opened (h : handleUses t = .init :: us) (hn : .init ∉ us) :
    ReleasedOnce t ↔ us.count .release = 1 ∧ us.getLast? = some .release := by
  unfold ReleasedOnce
  rw [h]
  constructor
  · intro hr
    exact hr [] us rfl
  · intro hr before after hu
    obtain _ | ⟨u, before⟩ := before
    · cases hu
      exact hr
    · cases hu
      exact absurd (by simp) hn

/-- What the branch of a command does with its handle. -/
theorem handleUses_command (h : CommandEnds args base c t rc) :
    (handleUses t = [.release] ∧ (count args base < c.checks ∨ c = .getlepc ∧ ⟨.malloc rmnetMaxStrLen, false⟩ ∈ t)) ∨
    (handleUses t = [.call, .release, .release] ∧ c.checks ≤ count args base ∧ ⟨.malloc rmnetMaxStrLen, false⟩ ∉ t) := by
  cases h with
  | missing few idle quiet => exact .inl ⟨by simp [quiet, handleUse?], .inl few⟩
  | noMemory enough hl idle quiet e => exact .inl ⟨by simp [quiet, handleUse?], .inr ⟨hl, by simp⟩⟩
  | called enough idle quiet uses x ms e =>
    have hu := (evalUses_events uses).quiet
    exact .inr ⟨by simp [quiet, hu, handleUse?], enough, malloc_not_called idle uses (by simp)⟩

end CliHandleAux

open CliHandleAux

variable {args : List CString} {t : CliEvents} {rc : Int}

/-- For every argument vector and every outcome of the operations, the handle is released once, and not used after that, exactly
where no handle is opened, or a command is known and misses an argument that is checked, or is `getlepc` without memory. -/
theorem released_once_iff (hx : (rmnetApiCall args.length).Exec t rc) (hc : Conforms args t) :
    ReleasedOnce t ↔ (Opened t → ∃ base c, parse args = some (base, c) ∧
      (count args base < c.checks ∨ c = .getlepc ∧ ⟨.malloc rmnetMaxStrLen, false⟩ ∈ t)) := by
  have hends := cli_ends hx hc
  clear hx hc
  rw [opened_iff]
  cases hends with
  | closed idle quiet => exact ⟨fun _ ho => by simp [quiet] at ho, fun _ => releasedOnce_closed quiet⟩
  | forgotten idle opened hp =>
    rw [releasedOnce_opened opened (by simp), opened, hp]
    simp
  | @branch t₁ t₂ _ base c idle opened hb hp hx hc =>
    have hinit : .init ∈ handleUses (t₁ ++ t₂) := by simp [opened]
    cases c with
    | none =>
      have hu : handleUses (t₁ ++ t₂) = [.init, .release, .release] := by
        cases hx with | op _ _ hx =>
        cases hx with | op _ _ hx =>
        cases hx with | op _ _ hx =>
        cases hx
        simp [opened, handleUse?]
      rw [releasedOnce_opened hu (by simp), hp]
      simp [hu]
    | some c =>
      have hmem : (⟨.malloc rmnetMaxStrLen, false⟩ : Prog.Event CliOp.Res) ∈ t₁ ++ t₂ ↔ ⟨.malloc rmnetMaxStrLen, false⟩ ∈ t₂ := by
        rw [List.mem_append, or_iff_right (malloc_not_idle idle)]
      rw [hp, hmem]
      rcases handleUses_command (command_ends hx hc hb) with ⟨hu, hcond⟩ | ⟨hu, henough, hm⟩
      · have hone : handleUses (t₁ ++ t₂) = [.init, .release] := by simp [opened, hu]
        rw [releasedOnce_opened hone (by simp)]
        exact ⟨fun _ _ => ⟨base, c, rfl, hcond⟩, fun _ => by simp⟩
      · have htwice : handleUses (t₁ ++ t₂) = [.init, .call, .release, .release] := by simp [opened, hu]
        rw [releasedOnce_opened htwice (by simp)]
        constructor
        · rintro ⟨hone, -⟩
          cases hone
        · intro h
          obtain ⟨base', c', heq, hcond⟩ := h hinit
          cases heq
          rcases hcond with hfew | ⟨-, hm'⟩
          · omega
          · exact absurd hm' hm

/-- The handle of `rmnetcli -n getlink`, which misses its argument, is released once. -/
theorem released_once_getlink : ReleasedOnce (typed getlinkOnly).events :=
  (released_once_iff (typed getlinkOnly).exec (typed getlinkOnly).conforms).mpr fun _ =>
    ⟨1, .getlink, by decide, .inl (by decide)⟩

/-- `newvnd 1` -/
def newvndOne : List CString := [⟨ascii "newvnd", by decide⟩, one]

/-- The handle of `rmnetcli newvnd 1` is released twice. -/
theorem not_released_once :
    ¬∀ (args : List CString) (t : CliEvents) (rc : Int), (rmnetApiCall args.length).Exec t rc → Conforms args t →
      ReleasedOnce t := by
  intro h
  have hu : handleUses (typed newvndOne).events = [.init, .call, .release, .release] := by decide +kernel
  have htwice := (releasedOnce_opened hu (by simp)).mp (h _ _ _ (typed newvndOne).exec (typed newvndOne).conforms)
  exact absurd htwice.1 (by decide)

end Pixel845.Rmnet
