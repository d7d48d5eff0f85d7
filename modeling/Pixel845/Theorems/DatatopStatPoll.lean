import Pixel845.Lemmas.DatatopStat
import Pixel845.Lemmas.DatatopStore

/-!
# Polling /proc/stat

A poll joins values and data points by their order: the value with some number among all that it reads is stored in the data point
with that number. It keeps values with their names exactly when the value that the file has at a position is, for the data point
there, as good as the one that it has by the name (`stat_poll_kept_iff`). That is so while the file has the same names in the same
order (`inOrder_of_names`); a line that comes or goes shifts all values behind it.
-/

namespace Pixel845.Datatop

/-- The lines of a file. -/
def fileLines (content : List UInt8) : List (List UInt8) := (content.splitOn 10).take (content.count 10)

/-- The names of the values of some lines, in their order. -/
def statNames (lines : List (List UInt8)) : List (List UInt8 × Nat) := (statEntries lines).map Prod.fst

/-- A data point is named for a key and the number of a value. -/
def BearsName (name : List UInt8 × Nat) (dp : DataPoint) : Prop :=
  ∃ n : Nat, name.2 < n ∧ dp.name = .copy (statName name.1 n name.2)

/-- What a file has for a name: the value with the number in a line with the key, or none. -/
def FileHas (content : List UInt8) (name : List UInt8 × Nat) : Option (List UInt8) → Prop
  | some v => ∃ line ∈ fileLines content, statKey line = name.1 ∧ (statValues line)[name.2]? = some v
  | none => ∀ line ∈ fileLines content, statKey line = name.1 → (statValues line)[name.2]? = none

/-- The calls of a poll: none if the file cannot be read. -/
def statCallsOf (content : List UInt8) (rest : Image) (dpg : Gatherer) : Option (List (Nat × Ptr)) :=
  if content = [] then some [] else (statPollCalls content rest dpg.priv).map Prod.snd

/-- The data points after a poll. -/
def statAfter (content : List UInt8) (rest : Image) (dpg : Gatherer) : Option (List DataPoint) :=
  (statPoll content rest dpg).map fun r => (r.getD dpg).dataPoints

/-- The poll is defined and stays within the data points, and each of these was given what the file has for its name. -/
def StatKept (names : List (List UInt8 × Nat)) (content : List UInt8) (rest : Image) (dpg : Gatherer) : Prop :=
  ∃ calls points, statCallsOf content rest dpg = some calls ∧ statAfter content rest dpg = some points ∧
    (∀ call ∈ calls, call.1 < dpg.dataPoints.length) ∧
    ∀ (d : Nat) name dp, names[d]? = some name → dpg.dataPoints[d]? = some dp →
      ∃ v, FileHas content name v ∧ points[d]? = some (dp.given v)

/-- There are no more values than data points, and for each data point the value at its position, or none, is as good as what the
file has for its name: both leave it alike. -/
def InOrder (names : List (List UInt8 × Nat)) (content : List UInt8) (entries : List ((List UInt8 × Nat) × List UInt8))
    (points : List DataPoint) : Prop :=
  entries.length ≤ points.length ∧
  ∀ (d : Nat) name dp, names[d]? = some name → points[d]? = some dp →
    ∃ v, FileHas content name v ∧ dp.given ((entries[d]?).map Prod.snd) = dp.given v

namespace StatPollAux

/-- Cutting fewer lines. -/
theorem cutLines_take (m : Image) (lineSize size k j start : Nat) :
    (cutLines m lineSize size k start).take j = cutLines m lineSize size (min j k) start := by
  induction k generalizing j start with
  | zero => simp [cutLines]
  | succ k ih =>
    cases j with
    | zero => simp [cutLines]
    | succ j => rw [cutLines, List.take_succ_cons, ih, Nat.succ_min_succ, cutLines]

/-- The lines read are those of the file, as far as both go. -/
theorem statLines_getElem? {content : List UInt8} (rest : Image) {vars : Vars} {b : Nat} {line : List UInt8}
    (hfit : content.length ≤ statSize) (hlines : ∀ line ∈ fileLines content, line.length < vars.lineSize)
    (hfile : (fileLines content)[b]? = some line) (hb : b < (statLines content rest vars).length) :
    (statLines content rest vars)[b]? = some line := by
  have hlen := (List.getElem?_eq_some_iff.mp hfile).1
  rw [fileLines, List.length_take] at hlen
  rw [statLines, List.length_map, cutLines_length] at hb
  have hpos : 1 ≤ vars.lineSize := by
    have := hlines line (List.mem_of_getElem? hfile)
    omega
  have hcut : cutLines (readFile content statSize rest) vars.lineSize statSize (min (b + 1) vars.lineCount) 0 =
      ((content.splitOn 10).take (min (b + 1) vars.lineCount)).map some := by
    refine cutLines_eq (by rw [readFile, List.take_of_length_le hfit]; exact Image.has_write rest 0 content) (by omega)
      hpos (by omega)
      fun l hl => ?_
    have hmem : l ∈ fileLines content := by
      refine List.mem_of_mem_take (i := min (b + 1) vars.lineCount) ?_
      rw [fileLines, List.take_take]
      rwa [show min (min (b + 1) vars.lineCount) (content.count 10) = min (b + 1) vars.lineCount by omega]
    have := hlines l hmem
    omega
  rw [← cutLines_take] at hcut
  have hget := congrArg (fun ls => ls[b]?) hcut
  simp only [List.getElem?_map] at hget
  rw [List.getElem?_take_of_lt (Nat.lt_succ_self b), List.getElem?_take_of_lt (by omega)] at hget
  rw [fileLines, List.getElem?_take_of_lt (by omega)] at hfile
  rw [statLines, List.getElem?_map, hget, hfile]
  rfl

/-- The calls of a poll whose lines have numbers in the dictionary: one for each value counted. -/
theorem calls_some {content : List UInt8} {rest : Image} {vars : Vars} (hnum : Numbered 0 (statLines content rest vars)) :
    ∃ (vars' : Vars) (ptr : Nat → Ptr), statPollCalls content rest vars =
        some (vars', (List.range (statItems [] 0 (statLines content rest vars)).length).map fun n => (n, ptr n)) ∧
      ∀ n b k, (statItems [] 0 (statLines content rest vars))[n]? = some (b, k) →
        ∃ line v, (statLines content rest vars)[b]? = some line ∧ (statValues line)[k]? = some v ∧ ptr n = statPtr b line k ∧
          vars'.cstr (ptr n) = cText v := by
  obtain ⟨vars', dict', hloop, hread, -⟩ := statRead_some hnum
  refine ⟨vars', fun n => (dict'.val n).getD ⟨.line 0, 0⟩, ?_, ?_⟩
  · have hcalls : statCalls dict' (statItems [] 0 (statLines content rest vars)).length =
        some ((List.range (statItems [] 0 (statLines content rest vars)).length).map
          fun n => (n, (dict'.val n).getD ⟨.line 0, 0⟩)) := by
      refine mapM_some ?_
      intro n hn
      obtain ⟨-, line, v, -, -, hval, -⟩ := hread.value n _ _ (List.getElem?_eq_getElem (List.mem_range.mp hn))
      rw [hval]
      rfl
    simp only [statPollCalls, hloop, Option.bind_eq_bind, Option.bind_some, hcalls, Option.pure_def]
  · intro n b k hn
    obtain ⟨-, line, v, hl, hv, hval, hcstr⟩ := hread.value n b k hn
    exact ⟨line, v, hl, hv, by simp only [hval, Option.getD_some], by simp only [hval, Option.getD_some, hcstr]⟩

/-- Lines with numbers outside the dictionary make the poll undefined. -/
theorem calls_none {content : List UInt8} {rest : Image} {vars : Vars} (hnum : ¬Numbered 0 (statLines content rest vars)) :
    statPollCalls content rest vars = none := by
  simp only [statPollCalls, statRead_none hnum, Option.bind_eq_bind, Option.bind_none]

/-- The data points after a poll. -/
theorem after_eq {content : List UInt8} {rest : Image} {dpg : Gatherer} {vars' : Vars} {calls : List (Nat × Ptr)}
    (hne : content ≠ []) (hcalls : statPollCalls content rest dpg.priv = some (vars', calls)) :
    statAfter content rest dpg = storeAll vars' calls dpg.dataPoints := by
  simp only [statAfter, statPoll, if_neg hne, hcalls, Option.bind_eq_bind, Option.bind_some, Option.pure_def]
  cases storeAll vars' calls dpg.dataPoints <;> rfl

/-- The calls of a poll and what they leave: one call for each value counted, with the place where the value stands. -/
theorem poll_calls {content : List UInt8} {rest : Image} {dpg : Gatherer} (hne : content ≠ [])
    (hnum : Numbered 0 (statLines content rest dpg.priv)) :
    ∃ (vars' : Vars) (ptr : Nat → Ptr) (calls : List (Nat × Ptr)), statCallsOf content rest dpg = some calls ∧
      statAfter content rest dpg = storeAll vars' calls dpg.dataPoints ∧
      (∀ call, call ∈ calls ↔ call.1 < (statItems [] 0 (statLines content rest dpg.priv)).length ∧ call.2 = ptr call.1) ∧
      (∀ d, callsAt calls d = if d < (statItems [] 0 (statLines content rest dpg.priv)).length then [ptr d] else []) ∧
      ∀ n b k, (statItems [] 0 (statLines content rest dpg.priv))[n]? = some (b, k) →
        ∃ line v, (statLines content rest dpg.priv)[b]? = some line ∧ (statValues line)[k]? = some v ∧ ptr n = statPtr b line k ∧
          vars'.cstr (ptr n) = cText v := by
  obtain ⟨vars', ptr, hcalls, hptr⟩ := calls_some hnum
  refine ⟨vars', ptr, _, ?_, after_eq hne hcalls, fun call => ⟨fun hmem => ?_, fun hcall => ?_⟩, fun d => callsAt_range .., hptr⟩
  · rw [statCallsOf, if_neg hne, hcalls]
    rfl
  · obtain ⟨n, hn, rfl⟩ := List.mem_map.mp hmem
    exact ⟨List.mem_range.mp hn, rfl⟩
  · exact List.mem_map.mpr ⟨call.1, List.mem_range.mpr hcall.1, by rw [← hcall.2]⟩

/-- A line that is read of a file with so many lines is one of its lines. -/
theorem mem_fileLines {content : List UInt8} {rest : Image} {vars : Vars} {line : List UInt8} (hfit : content.length ≤ statSize)
    (hlines : ∀ line ∈ fileLines content, line.length < vars.lineSize) (hcount : vars.lineCount ≤ content.count 10)
    (h : line ∈ statLines content rest vars) : line ∈ fileLines content := by
  obtain ⟨b, hb⟩ := List.mem_iff_getElem?.mp h
  have hlt := (List.getElem?_eq_some_iff.mp hb).1
  have hlen : (fileLines content).length = content.count 10 := by
    rw [fileLines, List.length_take, splitOn_length]
    omega
  have hread : (statLines content rest vars).length = vars.lineCount := by rw [statLines, List.length_map, cutLines_length]
  obtain ⟨line', hline'⟩ : ∃ line', (fileLines content)[b]? = some line' := ⟨_, List.getElem?_eq_getElem (by omega)⟩
  obtain rfl := Option.some.inj ((statLines_getElem? rest hfit hlines hline' hlt).symm.trans hb)
  exact List.mem_of_getElem? hline'

/-- The data points that a search registers bear the names of what it counted. -/
theorem names_forall {content : List UInt8} {rest : Image} {vars : Vars} {junk : Nat → DataPoint} {s : StatSearch}
    {dpg : Gatherer} (hsearch : statSearch content rest vars junk = some (some s)) (hdpg : s.gatherer = some dpg) :
    List.Forall₂ BearsName (statNames (statLines content rest vars)) dpg.dataPoints := by
  have hne : content ≠ [] := by
    intro h
    rw [statSearch, if_pos h] at hsearch
    cases hsearch
  by_cases hnum : Numbered 0 (statLines content rest vars)
  · obtain ⟨points, vars', hs, hforall, -⟩ := statSearch_some junk hne hnum
    obtain rfl := Option.some.inj (Option.some.inj (hs.symm.trans hsearch))
    rw [StatSearch.gatherer] at hdpg
    by_cases hlen : points.length = (statItems [] 0 (statLines content rest vars)).length
    · rw [if_pos hlen, Option.some.injEq] at hdpg
      subst hdpg
      have hcount : (statItems [] 0 (statLines content rest vars)).length = (statLines content rest vars).foldl statCount 0 :=
        statItems_length 0 _ (Nat.zero_le dictSize)
      rw [← hforall.length_eq, statFlat_length, hcount] at hlen
      have hover : NeverOver 0 (statLines content rest vars) :=
        (written_count _ (Nat.zero_le dictSize)).2.mp ((Nat.add_zero _).trans hlen)
      rw [statNames, ← statItems_entries, statItems_eq [] 0 (Nat.zero_le dictSize) hover, List.nil_append, List.map_map,
        List.forall₂_map_left_iff]
      refine hforall.imp ?_
      intro item dp hnamed
      obtain ⟨line, n, hline, hk, hname⟩ := hnamed
      exact ⟨n, hk, by simp [hname, entryOf, hline]⟩
    · rw [if_neg hlen] at hdpg
      cases hdpg
  · rw [statSearch_none junk hne hnum] at hsearch
    cases hsearch

/-- The sizes of a gatherer that a search registers are those of the line buffers it was given. -/
theorem search_sizes {content : List UInt8} {rest : Image} {vars : Vars} {junk : Nat → DataPoint} {s : StatSearch}
    {dpg : Gatherer} (hsearch : statSearch content rest vars junk = some (some s)) (hdpg : s.gatherer = some dpg) :
    dpg.priv.lineSize = vars.lineSize ∧ dpg.priv.lineCount = vars.lineCount := by
  have hne : content ≠ [] := by
    intro h
    rw [statSearch, if_pos h] at hsearch
    cases hsearch
  have hpriv : dpg.priv = s.vars := by
    rw [StatSearch.gatherer] at hdpg
    split at hdpg
    · rw [← Option.some.inj hdpg]
    · cases hdpg
  by_cases hnum : Numbered 0 (statLines content rest vars)
  · obtain ⟨points, vars', hs, -, hsize, hcount⟩ := statSearch_some junk hne hnum
    obtain rfl := Option.some.inj (Option.some.inj (hs.symm.trans hsearch))
    exact ⟨hpriv ▸ hsize, hpriv ▸ hcount⟩
  · rw [statSearch_none junk hne hnum] at hsearch
    cases hsearch

section Order

variable {content : List UInt8} {rest : Image} {dpg : Gatherer}

/-- What a poll leaves that stays within the data points: each was given the value at its position. -/
theorem after_given (hne : content ≠ []) (hnum : Numbered 0 (statLines content rest dpg.priv))
    (hle : (statEntries (statLines content rest dpg.priv)).length ≤ dpg.dataPoints.length) :
    ∃ calls points, statCallsOf content rest dpg = some calls ∧ statAfter content rest dpg = some points ∧
      (∀ call ∈ calls, call.1 < dpg.dataPoints.length) ∧
      ∀ (d : Nat) dp, dpg.dataPoints[d]? = some dp →
        points[d]? = some (dp.given (((statEntries (statLines content rest dpg.priv))[d]?).map Prod.snd)) := by
  obtain ⟨vars', ptr, calls, hcalls, hafter, hmem, hat, hptr⟩ := poll_calls hne hnum
  have hentries := statItems_entries (statLines content rest dpg.priv)
  generalize statItems [] 0 (statLines content rest dpg.priv) = items at hmem hat hptr hentries
  rw [← hentries, List.length_map] at hle
  have hin : ∀ call ∈ calls, call.1 < dpg.dataPoints.length := by
    intro call hcall
    have := ((hmem call).mp hcall).1
    omega
  obtain ⟨points, hstore⟩ := storeAll_isSome vars' hin
  refine ⟨calls, points, hcalls, hafter.trans hstore, hin, ?_⟩
  intro d dp hdp
  have hcall := hat d
  by_cases hlt : d < items.length
  · rw [if_pos hlt] at hcall
    obtain ⟨⟨b, k⟩, hitem⟩ : ∃ item, items[d]? = some item := ⟨_, List.getElem?_eq_getElem hlt⟩
    obtain ⟨line, v, hline, hv, -, hcstr⟩ := hptr d b k hitem
    rw [storeAll_single hstore hcall, hdp, ← hentries, List.getElem?_map, hitem, hcstr]
    simp [DataPoint.given, entryOf, hline, hv]
  · rw [if_neg hlt] at hcall
    rw [storeAll_untouched hstore hcall, hdp, ← hentries, List.getElem?_map, List.getElem?_eq_none (by omega)]
    rfl

/-- A value counted behind the data points would be stored there. -/
theorem le_of_inside (hne : content ≠ []) (hnum : Numbered 0 (statLines content rest dpg.priv)) {calls : List (Nat × Ptr)}
    (hcalls : statCallsOf content rest dpg = some calls) (hin : ∀ call ∈ calls, call.1 < dpg.dataPoints.length) :
    (statEntries (statLines content rest dpg.priv)).length ≤ dpg.dataPoints.length := by
  obtain ⟨vars', ptr, calls', hcalls', -, hmem, -, -⟩ := poll_calls hne hnum
  obtain rfl := Option.some.inj (hcalls.symm.trans hcalls')
  rw [← statItems_entries, List.length_map]
  by_contra hlt
  have hlast :=
    hin ((statItems [] 0 (statLines content rest dpg.priv)).length - 1, ptr _) ((hmem _).mpr ⟨by simp only; omega, rfl⟩)
  simp only at hlast
  omega

/-- A poll of lines whose numbers are in the dictionary keeps the values exactly if their order does. -/
theorem kept_iff_inOrder (names : List (List UInt8 × Nat)) (hne : content ≠ [])
    (hnum : Numbered 0 (statLines content rest dpg.priv)) :
    StatKept names content rest dpg ↔ InOrder names content (statEntries (statLines content rest dpg.priv)) dpg.dataPoints := by
  constructor
  · intro h
    obtain ⟨calls, points, hcalls, hafter, hin, hkept⟩ := h
    have hle := le_of_inside hne hnum hcalls hin
    obtain ⟨calls', points', -, hafter', -, hgiven⟩ := after_given hne hnum hle
    obtain rfl := Option.some.inj (hafter.symm.trans hafter')
    refine ⟨hle, ?_⟩
    intro d name dp hname hdp
    obtain ⟨v, hhas, hpoint⟩ := hkept d name dp hname hdp
    exact ⟨v, hhas, Option.some.inj ((hgiven d dp hdp).symm.trans hpoint)⟩
  · rintro ⟨hle, hvalue⟩
    obtain ⟨calls, points, hcalls, hafter, hin, hgiven⟩ := after_given hne hnum hle
    refine ⟨calls, points, hcalls, hafter, hin, ?_⟩
    intro d name dp hname hdp
    obtain ⟨v, hhas, halike⟩ := hvalue d name dp hname hdp
    exact ⟨v, hhas, halike ▸ hgiven d dp hdp⟩

/-- Without a number in the dictionary for each line with content the poll is not defined. -/
theorem not_kept (names : List (List UInt8 × Nat)) (hne : content ≠ []) (hnum : ¬Numbered 0 (statLines content rest dpg.priv)) :
    ¬StatKept names content rest dpg := by
  intro h
  obtain ⟨calls, points, hcalls, -⟩ := h
  rw [statCallsOf, if_neg hne, calls_none hnum] at hcalls
  cases hcalls

/-- A poll of a file that cannot be read changes nothing. -/
theorem kept_nil (names : List (List UInt8 × Nat)) (rest : Image) (dpg : Gatherer) : StatKept names [] rest dpg := by
  refine ⟨[], dpg.dataPoints, by rw [statCallsOf, if_pos rfl], by rw [statAfter, statPoll, if_pos rfl]; rfl, by simp, ?_⟩
  intro d name dp _ hdp
  exact ⟨none, fun line hline => by simp [fileLines] at hline, hdp⟩

/-- A poll keeps names and sizes. -/
theorem poll_fixed {dpg' : Gatherer} (h : statPoll content rest dpg = some (some dpg')) :
    dpg'.dataPoints.map DataPoint.fixed = dpg.dataPoints.map DataPoint.fixed ∧ dpg'.priv.lineSize = dpg.priv.lineSize ∧
      dpg'.priv.lineCount = dpg.priv.lineCount := by
  have hne : content ≠ [] := by
    intro hnil
    rw [statPoll, if_pos hnil] at h
    cases h
  by_cases hnum : Numbered 0 (statLines content rest dpg.priv)
  · obtain ⟨vars', dict', hloop, -, hsize, hcount⟩ := statRead_some hnum
    simp only [statPoll, statPollCalls, if_neg hne, hloop, Option.bind_eq_bind, Option.bind_some, Option.bind_eq_some_iff,
      Option.pure_def, Option.some.injEq] at h
    obtain ⟨⟨vars1, calls⟩, ⟨calls1, -, heq⟩, points, hstore, rfl⟩ := h
    obtain ⟨rfl, rfl⟩ := Prod.mk.inj heq
    exact ⟨storeAll_fixed hstore, hsize, hcount⟩
  · simp only [statPoll, if_neg hne, calls_none hnum, Option.bind_eq_bind, Option.bind_none] at h
    cases h

/-- After any polls the data points have their names, and the line buffers their sizes. -/
theorem after_fixed {registered : Gatherer} (h : AfterPolls statPoll registered dpg) :
    dpg.dataPoints.map DataPoint.fixed = registered.dataPoints.map DataPoint.fixed ∧
      dpg.priv.lineSize = registered.priv.lineSize ∧ dpg.priv.lineCount = registered.priv.lineCount := by
  refine h.keeps (P := fun dpg => dpg.dataPoints.map DataPoint.fixed = registered.dataPoints.map DataPoint.fixed ∧
    dpg.priv.lineSize = registered.priv.lineSize ∧ dpg.priv.lineCount = registered.priv.lineCount) ⟨rfl, rfl, rfl⟩ ?_
  rintro content rest dpg dpg' ⟨hfixed, hsize, hcount⟩ hpoll
  obtain ⟨hfixed', hsize', hcount'⟩ := poll_fixed hpoll
  exact ⟨hfixed'.trans hfixed, hsize'.trans hsize, hcount'.trans hcount⟩

/-- Names depend on what polls keep. -/
theorem names_congr {names : List (List UInt8 × Nat)} {points points' : List DataPoint} (h : List.Forall₂ BearsName names points)
    (hfixed : points'.map DataPoint.fixed = points.map DataPoint.fixed) : List.Forall₂ BearsName names points' := by
  have hmap : ∀ points : List DataPoint, List.Forall₂ BearsName names points ↔
      List.Forall₂ (fun name x => ∃ n : Nat, name.2 < n ∧ x.1 = .copy (statName name.1 n name.2)) names
      (points.map DataPoint.fixed) := by
    intro points
    rw [List.forall₂_map_right_iff]
    rfl
  rw [hmap, hfixed, ← hmap]
  exact h

end Order

end StatPollAux

open StatPollAux in
/-- For every content at the start for which a gatherer is registered, any polls that are defined, and every content of a later
poll, whatever the buffers hold behind them: the data points bear the names of the values at the start in their order, and the
poll keeps values with their names exactly when the order of the values does. -/
theorem stat_poll_kept_iff (content content' : List UInt8) (rest rest' : Image) (vars : Vars) (junk : Nat → DataPoint)
    (s : StatSearch) (registered dpg : Gatherer) (hsearch : statSearch content rest vars junk = some (some s))
    (hdpg : s.gatherer = some registered)
    (hpolls : AfterPolls statPoll registered dpg) :
    List.Forall₂ BearsName (statNames (statLines content rest vars)) dpg.dataPoints ∧
      (StatKept (statNames (statLines content rest vars)) content' rest' dpg ↔
        content' = [] ∨ Numbered 0 (statLines content' rest' vars) ∧
          InOrder (statNames (statLines content rest vars)) content' (statEntries (statLines content' rest' vars))
          dpg.dataPoints) := by
  obtain ⟨hfixed, hsize, hcount⟩ := after_fixed hpolls
  obtain ⟨hsize', hcount'⟩ := search_sizes hsearch hdpg
  have hlines : statLines content' rest' dpg.priv = statLines content' rest' vars := by
    rw [statLines, statLines, hsize, hcount, hsize', hcount']
  rw [← hlines]
  refine ⟨names_congr (names_forall hsearch hdpg) hfixed, ?_⟩
  by_cases hnil : content' = []
  · subst hnil
    exact ⟨fun _ => .inl rfl, fun _ => kept_nil _ rest' dpg⟩
  by_cases hnum : Numbered 0 (statLines content' rest' dpg.priv)
  · rw [kept_iff_inOrder _ hnil hnum]
    exact ⟨fun h => .inr ⟨hnum, h⟩, fun h => (h.resolve_left hnil).2⟩
  · exact ⟨fun h => absurd h (not_kept _ hnil hnum), fun h => absurd (h.resolve_left hnil).1 hnum⟩

open StatPollAux in
/-- The order is right while the lines of the file have the names of the data points in their order; if some are missing at the
end, the file must not have them elsewhere. -/
theorem inOrder_of_names {content : List UInt8} {rest : Image} {vars : Vars} {names : List (List UInt8 × Nat)}
    {points : List DataPoint} (hfit : content.length ≤ statSize)
    (hlines : ∀ line ∈ fileLines content, line.length < vars.lineSize)
    (hcount : vars.lineCount ≤ content.count 10) (hlen : names.length = points.length)
    (hnames : statNames (statLines content rest vars) <+: names)
    (hbehind : ∀ name ∈ names.drop (statNames (statLines content rest vars)).length, FileHas content name none) :
    InOrder names content (statEntries (statLines content rest vars)) points := by
  have hmap : (statNames (statLines content rest vars)).length = (statEntries (statLines content rest vars)).length :=
    List.length_map ..
  refine ⟨by rw [← hmap, ← hlen]; exact hnames.length_le, ?_⟩
  intro d name dp hname _
  by_cases hd : d < (statEntries (statLines content rest vars)).length
  · have hentry := List.getElem?_eq_getElem hd
    refine ⟨some (statEntries (statLines content rest vars))[d].2, ?_, by rw [hentry, Option.map_some]⟩
    -- The value at the position bears the name of the data point, and it stands in a line of the file.
    have hpos : (statNames (statLines content rest vars))[d]? = some name := by
      have hlt : d < (statNames (statLines content rest vars)).length := hmap ▸ hd
      rw [List.getElem?_eq_getElem hlt, hnames.getElem hlt, ← List.getElem?_eq_getElem, hname]
    rw [statNames, List.getElem?_map, hentry, Option.map_some, Option.some.injEq] at hpos
    obtain ⟨line, hline, hmem⟩ := List.mem_flatMap.mp (List.mem_of_mem_take (List.getElem_mem hd))
    obtain ⟨⟨v, k⟩, hv, heq⟩ := List.mem_map.mp hmem
    rw [List.mem_zipIdx_iff_getElem?] at hv
    rw [← hpos, ← heq]
    exact ⟨line, mem_fileLines hfit hlines hcount ((behindEmpty_suffix _).subset hline), rfl, hv⟩
  · rw [List.getElem?_eq_none (Nat.le_of_not_lt hd)]
    refine ⟨none, hbehind name ?_, rfl⟩
    rw [hmap]
    refine List.mem_iff_getElem?.mpr ⟨d - (statEntries (statLines content rest vars)).length, ?_⟩
    rw [List.getElem?_drop, show (statEntries
      (statLines content rest vars)).length + (d - (statEntries (statLines content rest vars)).length) = d by omega]
    exact hname

-- A key may come twice, here in the line `a 1`.
example (points : List DataPoint) (h : points.length = 2) :
    InOrder (statNames (statLines [97, 32, 49, 10, 97, 32, 49, 10] Image.zero (.cleared 4096 2))) [97, 32, 49, 10, 97, 32, 49, 10]
      (statEntries (statLines [97, 32, 49, 10, 97, 32, 49, 10] Image.zero (.cleared 4096 2))) points :=
  inOrder_of_names (by decide) (by decide) (by decide) (Eq.trans (by decide +kernel) h.symm) List.prefix_rfl (by simp)

/-- A file of three lines with a value each. -/
def threeLines : List UInt8 := [99, 112, 117, 32, 49, 10, 99, 112, 117, 48, 32, 50, 10, 105, 110, 116, 114, 32, 51, 10]

/-- The gatherer that is registered for it. -/
def threeLinesSearch : Option StatSearch := (statSearch threeLines Image.zero (.cleared 4096 3) fun _ => .blank).bind id

/-- The same lines with other values. -/
def threeValues : List UInt8 := [99, 112, 117, 32, 52, 10, 99, 112, 117, 48, 32, 53, 10, 105, 110, 116, 114, 32, 54, 10]

/-- The rule for a file that is polled with other values first, and then as it was searched. -/
theorem stat_poll_kept_three :
    ∃ s registered dpg, threeLinesSearch = some s ∧ s.gatherer = some registered ∧ AfterPolls statPoll registered dpg ∧
      dpg.dataPoints.map (fun dp => DataUnion.dUlong dp.data) = [4, 5, 6] ∧
      List.Forall₂ BearsName (statNames (statLines threeLines Image.zero (.cleared 4096 3))) dpg.dataPoints ∧
      (StatKept (statNames (statLines threeLines Image.zero (.cleared 4096 3))) threeLines Image.zero dpg ↔
        threeLines = [] ∨ Numbered 0 (statLines threeLines Image.zero (.cleared 4096 3)) ∧
          InOrder (statNames (statLines threeLines Image.zero (.cleared 4096 3))) threeLines
            (statEntries (statLines threeLines Image.zero (.cleared 4096 3))) dpg.dataPoints) := by
  have hker : (threeLinesSearch.bind fun s => s.gatherer.bind fun registered =>
      ((statPoll threeValues Image.zero registered).bind id).map fun dpg => dpg.dataPoints.map fun dp =>
        DataUnion.dUlong dp.data) =
      some [4, 5, 6] := by decide +kernel
  rw [Option.bind_eq_some_iff] at hker
  obtain ⟨s, hs, hker⟩ := hker
  rw [Option.bind_eq_some_iff] at hker
  obtain ⟨registered, hregistered, hker⟩ := hker
  rw [Option.map_eq_some_iff] at hker
  obtain ⟨dpg, hdpg, hdata⟩ := hker
  rw [Option.bind_eq_some_iff] at hdpg
  obtain ⟨r, hr, rfl⟩ := hdpg
  have hpolls : AfterPolls statPoll registered dpg := .poll threeValues Image.zero .registered hr
  have hsearch : statSearch threeLines Image.zero (.cleared 4096 3) (fun _ => .blank) = some (some s) := by
    rw [threeLinesSearch, Option.bind_eq_some_iff] at hs
    obtain ⟨r, hr, rfl⟩ := hs
    exact hr
  exact ⟨s, registered, dpg, hs, hregistered, hpolls, hdata, stat_poll_kept_iff threeLines threeLines Image.zero Image.zero
    (.cleared 4096 3) (fun _ => .blank) s registered dpg hsearch hregistered hpolls⟩

/-- The three lines with a line `cpu1 7` before the last one. -/
def fourLines : List UInt8 :=
  [99, 112, 117, 32, 49, 10, 99, 112, 117, 48, 32, 50, 10, 99, 112, 117, 49, 32, 55, 10, 105, 110, 116, 114, 32, 51, 10]

/-- The value of `cpu1` is stored in the data point `intr`. -/
theorem stat_poll_shifted :
    ∃ s dpg, threeLinesSearch = some s ∧ s.gatherer = some dpg ∧
      dpg.dataPoints.map DataPoint.name = [.copy [99, 112, 117], .copy [99, 112, 117, 48], .copy [105, 110, 116, 114]] ∧
      ¬StatKept [([99, 112, 117], 0), ([99, 112, 117, 48], 0), ([105, 110, 116, 114], 0)] fourLines Image.zero dpg := by
  have hker : (threeLinesSearch.bind fun s => s.gatherer.bind fun dpg => (dpg.dataPoints[2]?).bind fun dp =>
      (statAfter fourLines Image.zero dpg).map fun points => (dpg.dataPoints.map DataPoint.name,
        DataUnion.dUlong (dp.given (some [51])).data, (points[2]?).map fun dp => DataUnion.dUlong dp.data)) =
      some ([.copy [99, 112, 117], .copy [99, 112, 117, 48], .copy [105, 110, 116, 114]], 3, some 7) := by decide +kernel
  simp only [Option.bind_eq_some_iff, Option.map_eq_some_iff, Prod.mk.injEq] at hker
  obtain ⟨s, hs, dpg, hdpg, dp, hdp, points, hafter, hnames, hthree, dp', hdp', hseven⟩ := hker
  refine ⟨s, dpg, hs, hdpg, hnames, ?_⟩
  intro hkept
  obtain ⟨calls, points', -, hafter', -, hkept⟩ := hkept
  obtain rfl := Option.some.inj (hafter.symm.trans hafter')
  obtain ⟨v, hhas, hpoint⟩ := hkept 2 ([105, 110, 116, 114], 0) dp rfl hdp
  -- The file has one value for the name.
  have hfile : ∀ line ∈ fileLines fourLines, statKey line = [105, 110, 116, 114] → (statValues line)[0]? = some [51] := by decide
  cases v with
  | none => exact absurd (hhas [105, 110, 116, 114, 32, 51] (by decide) (by decide)) (by decide)
  | some v =>
    obtain ⟨line, hline, hkey, hv⟩ := hhas
    obtain rfl := Option.some.inj (hv.symm.trans (hfile line hline hkey))
    rw [hdp', Option.some.injEq] at hpoint
    rw [hpoint, hthree] at hseven
    exact absurd hseven (by decide)

end Pixel845.Datatop
