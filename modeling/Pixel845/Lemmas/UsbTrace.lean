import Pixel845.Usb.Contract

/-!
# Helpers: what a call leaves behind grows at its end

How `Configured`, `PulledUp`, `AppliedBy` and `LateFlag` behave when events are appended. An event is neutral when it is no
write of an identifier, no link and no read of a property: appended after a configuration was set up it does not undo it.
-/

namespace Pixel845.Usb

/-- An event that says nothing about the configuration. -/
def Event.Neutral (e : Event) : Prop := e.idWrite? = none ∧ e.link? = none ∧ ∀ key, e.read? key = none

/-- The events that the monitor and other processes leave behind. -/
def Event.isEnv : Event → Bool
  | .wrote .monitor .gadgetName .pullup _ => true
  | .applied .monitor true => true
  | .propChanged => true
  | .foundMissing => true
  | _ => false

/-- Events of the environment are neutral. -/
theorem neutral_of_isEnv {e : Event} (h : e.isEnv = true) : e.Neutral := by
  unfold Event.isEnv at h
  split at h
  · exact ⟨rfl, rfl, fun _ => rfl⟩
  · exact ⟨rfl, rfl, fun _ => rfl⟩
  · exact ⟨rfl, rfl, fun _ => rfl⟩
  · exact ⟨rfl, rfl, fun _ => rfl⟩
  · cases h

/-- Events of the environment are no callbacks. -/
theorem call_of_isEnv {e : Event} (h : e.isEnv = true) : e.call? = none := by
  unfold Event.isEnv at h
  split at h
  · rfl
  · rfl
  · rfl
  · rfl
  · cases h

/-- A list of events of which none is selected adds nothing to a selection. -/
theorem filterMap_append_none {β : Type} (sel : Event → Option β) (tr evs : List Event) (h : ∀ e ∈ evs, sel e = none) :
    (tr ++ evs).filterMap sel = tr.filterMap sel := by
  rw [List.filterMap_append, List.filterMap_eq_nil_iff.mpr h, List.append_nil]

/-- Neutral events do not change what was last read. -/
theorem lastRead_append {tr evs : List Event} (h : ∀ e ∈ evs, e.Neutral) : lastRead (tr ++ evs) = lastRead tr := by
  funext key
  unfold lastRead
  rw [filterMap_append_none _ _ _ (fun e he => (h e he).2.2 key)]

/-- A configuration that was set up stays set up through neutral events. -/
theorem Configured.append {f : UInt64} {tr evs : List Event} (h : Configured f tr) (he : ∀ e ∈ evs, e.Neutral) :
    Configured f (tr ++ evs) := by
  obtain ⟨v, vid, pid, h1, h2, h3, h4⟩ := h
  have hv : vendorRead (tr ++ evs) = vendorRead tr := by rw [vendorRead, lastRead_append he, vendorRead]
  refine ⟨v, vid, pid, h1, ?_, ?_, ?_⟩
  · intro hn
    rw [hv]
    exact h2 (fun hm => hn (List.mem_append_left _ hm))
  · rw [filterMap_append_none _ _ _ (fun e h => (he e h).1), h3]
  · rw [hv, filterMap_append_none _ _ _ (fun e h => (he e h).2.1), h4]

/-- A pull-up stays in the trace. -/
theorem PulledUp.append {f : UInt64} {tr : List Event} (evs : List Event) (h : PulledUp f tr) : PulledUp f (tr ++ evs) := by
  obtain ⟨a, b, who, rfl, hc⟩ := h
  exact ⟨a, b ++ evs, who, by simp, hc⟩

/-- A flag that was set late stays in the trace. -/
theorem LateFlag.append {tr : List Event} (evs : List Event) (h : LateFlag tr) : LateFlag (tr ++ evs) := by
  obtain ⟨a, b, rfl, ha⟩ := h
  exact ⟨a, b ++ evs, by simp, ha⟩

/-- Who has set the flag stays so while no one else sets it. -/
theorem AppliedBy.append {f : UInt64} {tr evs : List Event} (h : AppliedBy f tr) (he : ∀ e ∈ evs, e.isApplied = false) :
    AppliedBy f (tr ++ evs) := by
  obtain ⟨a, b, c, who, rfl, hc, hb, hcs⟩ := h
  refine ⟨a, b, c ++ evs, who, by simp, hc, hb, ?_⟩
  intro e hm
  rcases List.mem_append.mp hm with hm | hm
  · exact hcs e hm
  · exact he e hm

/-- The flag stands for a pull-up of a configuration that was set up. -/
theorem AppliedBy.pulledUp {f : UInt64} {tr : List Event} (h : AppliedBy f tr) : PulledUp f tr := by
  obtain ⟨a, b, c, who, rfl, hc, -, -⟩ := h
  exact ⟨a, _, who, rfl, hc⟩

/-- A flag that stands for a configuration was set after a write of the vendor identifier. -/
theorem idWrite_of_appliedBy {f : UInt64} {tr : List Event} (h : AppliedBy f tr) : ∃ e ∈ tr, e.idWrite? ≠ none := by
  obtain ⟨a, who, b, c, rfl, ⟨v, vid, pid, -, -, hids, -⟩, -, -⟩ := h
  have hmem : (Path.vendorId, Content.hex vid, true) ∈ a.filterMap Event.idWrite? := by
    rw [hids]
    exact List.mem_cons_self
  obtain ⟨e, he, hsel⟩ := List.mem_filterMap.mp hmem
  exact ⟨e, List.mem_append_left _ he, by simp [hsel]⟩

/-- A flag that the monitor sets before any monitor was started is set late. -/
theorem lateFlag_of_not_started {tr : List Event} (h : .started ∉ tr) : LateFlag (tr ++ [.applied .monitor true]) :=
  ⟨tr, [], rfl, h⟩

end Pixel845.Usb
