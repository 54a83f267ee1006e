import AmxModC.Format.Buffers

namespace AmxModC.Format

open Foundation

/-! Formatting while the destination may be part of what is formatted. -/

def inDestination (amx : Amx) (dest : Cell) (maxlen : Nat) (owner : Amx) (cell : Nat) : Bool :=
  decide (owner = amx ∧ cellNumber dest ≤ cell ∧ cell ≤ cellNumber dest + maxlen)

/-- The text of the memory before the call is at the destination afterwards, cut to the
limit and terminated, and everything else is as it was. -/
def FormatsSnapshot (amx : Amx) (dest : Cell) (maxlen : Nat) (whole : List Cell) (before : Memories)
    (answer : Option (Nat × Memories)) : Prop :=
  ∃ after, answer = some ((whole.take maxlen).length, after) ∧
    after.data = before.data.store amx (cellNumber dest) (whole.take maxlen ++ [0])

def Apart (source : Source) (host : Host) (fuel : Nat) (amx : Amx) (dest : Cell) (maxlen : Nat)
    (data : Memory) : Prop :=
  (source.inputs host data (inDestination amx dest maxlen)).pieces source.params.count
      source.params.get fuel 0 source.param =
    (source.snapshot host data).pieces source.params.count source.params.get fuel 0 source.param

section

variable {source : Source} {host : Host} {fuel : Nat} {amx : Amx} {dest : Cell} {maxlen : Nat}
  {m : Memories} {ps : List (Piece 32)} {ending : Ending}

theorem store_nil (data : Memory) (amx : Amx) (first : Nat) : data.store amx first [] = data := by
  funext owner i
  exact Memory.store_of_not fun h => by
    obtain ⟨_, hle, hlt⟩ := h
    exact absurd hlt (not_lt.mpr hle)

theorem store_concat (data : Memory) (amx : Amx) (first : Nat) (text : List Cell) (ch : Cell) :
    (data.store amx first text).store amx (first + text.length) [ch] =
      data.store amx first (text ++ [ch]) := by
  funext owner i
  unfold Memory.store
  by_cases howner : owner = amx
  · obtain hbefore | hbehind := lt_or_ge i first
    · rw [if_neg (by omega), if_neg (by omega), if_neg (by omega)]
    · obtain ⟨k, rfl⟩ := Nat.exists_eq_add_of_le hbehind
      have hbase : owner = amx ∧ first ≤ first + k := ⟨howner, hbehind⟩
      rw [if_pos hbase, if_pos hbase, Nat.add_sub_cancel_left]
      rcases lt_trichotomy k text.length with hlt | heq | hgt
      · rw [if_neg (by omega), List.getElem?_append_left hlt]
      · rw [if_pos ⟨howner, by omega⟩, heq, Nat.sub_self, List.getElem?_append_right le_rfl,
          Nat.sub_self]
        rfl
      · have hend : [ch][first + k - (first + text.length)]? = none :=
          List.getElem?_eq_none (by rw [List.length_singleton]; omega)
        have hwhole : (text ++ [ch])[k]? = none :=
          List.getElem?_eq_none (by rw [List.length_append, List.length_singleton]; omega)
        rw [if_pos ⟨howner, by omega⟩, hend, hwhole, List.getElem?_eq_none hgt.le]
        rfl
  · rw [if_neg (fun h => howner h.1), if_neg (fun h => howner h.1), if_neg (fun h => howner h.1)]

theorem read_of_shown {data : Memory} {text : List Cell} {owner : Amx} {cell : Nat} {c : Cell}
    (htext : text.length ≤ maxlen + 1)
    (h : (if inDestination amx dest maxlen owner cell = true then none
      else some (data owner cell)) = some c) :
    some (data.store amx (cellNumber dest) text owner cell) = some c := by
  split at h
  next => cases h
  next hshown =>
      rw [← h, Memory.store_of_not]
      intro ⟨howner, hle, hlt⟩
      exact hshown (decide_eq_true ⟨howner, hle, by omega⟩)

theorem tracks_inPlace (source : Source) (host : Host) (amx : Amx) (dest : Cell) (maxlen : Nat)
    (data : Memory) :
    Tracks (source.inputs host data (inDestination amx dest maxlen))
      (source.inPlace host amx dest maxlen) (maxlen + 1)
      (fun text => data.store amx (cellNumber dest) text) where
  fmt := fun _ htext _ _ h => read_of_shown htext h
  arg := fun _ _ htext _ _ h => read_of_shown htext h
  vector := fun _ _ _ _ _ h => h
  put := fun text ch hroom => by
    have hinside : text.length ≤ maxlen := Nat.le_of_lt_succ hroom
    exact (if_pos hinside).trans (congrArg some (store_concat data amx _ text ch))
  full := fun text ch hroom => if_neg (by omega)
  float := rfl

theorem length_taken (maxlen : Nat) (text : List Cell) :
    (text.take maxlen).length = maxlen - (maxlen - text.length) := by
  rw [List.length_take]
  omega

theorem formatInPlace_iff
    (hpieces : (source.snapshot host m.data).pieces source.params.count source.params.get fuel 0
      source.param = some (ps, ending))
    (hending : ending = .finished ∨ maxlen ≤ (text ps).length)
    (hapart : Apart source host fuel amx dest maxlen m.data) :
    FormatsSnapshot amx dest maxlen (text ps) m
        (formatInPlace host fuel source amx dest maxlen m) ↔ WithinInt ps maxlen := by
  have hfollows : Follows (fun text => m.data.store amx (cellNumber dest) text) (maxlen + 1)
      maxlen [] maxlen ps ending _ :=
    (tracks_inPlace source host amx dest maxlen m.data).loop_follows source.params.count
      source.params.get maxlen (hapart.trans hpieces) (Nat.zero_le _)
  rw [written, store_nil] at hfollows
  change Follows _ (maxlen + 1) maxlen [] maxlen ps ending ((source.inPlace host amx dest
    maxlen).atcprintf fuel maxlen source.params.count source.params.get source.param m.data)
    at hfollows
  have hlength := length_taken maxlen (text ps)
  constructor
  · intro hformats
    obtain ⟨after, hanswer, -⟩ := hformats
    by_contra hnot
    rw [formatInPlace, hfollows.beyond hnot] at hanswer
    cases hanswer
  · intro hwithin
    obtain ⟨param', hrun⟩ := hfollows.finished hwithin hending (by
      rw [List.length_nil, List.length_take]
      omega)
    refine ⟨{ m with data := m.data.store amx (cellNumber dest) ((text ps).take maxlen ++ [0]) },
      ?_, rfl⟩
    rw [formatInPlace, hrun, hlength]
    rfl

theorem map_range_fill (cells : Nat → Cell) (text : List Cell) :
    (List.range text.length).map (fill cells text) = text := by
  apply List.ext_getElem
  · rw [List.length_map, List.length_range]
  · intro i _ h
    rw [List.getElem_map, List.getElem_range, fill_of_lt cells h]

theorem formatCopy_iff
    (hpieces : (source.snapshot host m.data).pieces source.params.count source.params.get fuel 0
      source.param = some (ps, ending))
    (hending : ending = .finished ∨ maxlen ≤ (text ps).length) :
    FormatsSnapshot amx dest maxlen (text ps) m
        (formatCopy host fuel source amx dest maxlen m) ↔
      WithinInt ps maxlen ∧ ((text ps).take maxlen).length < cpbufSize := by
  have hfollows := atcprintf_follows cpbufSize maxlen m.cpbuf hpieces
  have hlength := length_taken maxlen (text ps)
  constructor
  · intro hformats
    obtain ⟨after, hanswer, -⟩ := hformats
    constructor
    · by_contra hnot
      rw [formatCopy, hfollows.beyond hnot] at hanswer
      cases hanswer
    · by_contra hover
      by_cases hwithin : WithinInt ps maxlen
      · rw [formatCopy, hfollows.full hwithin hending (by
          rw [List.length_nil]
          omega)] at hanswer
        cases hanswer
      · rw [formatCopy, hfollows.beyond hwithin] at hanswer
        cases hanswer
  · intro ⟨hwithin, hroom⟩
    obtain ⟨param', hrun⟩ := hfollows.finished hwithin hending (by
      rw [List.length_nil]
      omega)
    refine ⟨_, by rw [formatCopy, hrun, hlength]; rfl, ?_⟩
    have hcopied := map_range_fill m.cpbuf ((text ps).take maxlen ++ [0])
    rw [List.length_append, List.length_singleton] at hcopied
    rw [← hlength]
    exact congrArg (m.data.store amx (cellNumber dest)) hcopied

/-- When the snapshot is what a native formats: always through the buffer, as far as the
buffer reaches, and in place where the destination is not read. -/
def SnapshotWhen (host : Host) (fuel : Nat) (copies : Bool) (source : Source) (amx : Amx)
    (dest : Cell) (maxlen : Nat) (m : Memories) (answer : Option (Nat × Memories)) : Prop :=
  ∀ ps ending,
    (source.snapshot host m.data).pieces source.params.count source.params.get fuel 0
      source.param = some (ps, ending) →
    (ending = .finished ∨ maxlen ≤ (text ps).length) →
    (copies = true →
      (FormatsSnapshot amx dest maxlen (text ps) m answer ↔
        WithinInt ps maxlen ∧ ((text ps).take maxlen).length < cpbufSize)) ∧
    (copies = false → Apart source host fuel amx dest maxlen m.data →
      (FormatsSnapshot amx dest maxlen (text ps) m answer ↔ WithinInt ps maxlen))

theorem snapshotWhen_choice (copies : Bool) :
    SnapshotWhen host fuel copies source amx dest maxlen m
      (if copies then formatCopy host fuel source amx dest maxlen m
        else formatInPlace host fuel source amx dest maxlen m) := by
  intro ps ending hpieces hending
  cases copies with
  | true => exact ⟨fun _ => formatCopy_iff hpieces hending, fun h => absurd h (by decide)⟩
  | false =>
      exact ⟨fun h => absurd h (by decide),
        fun _ hapart => formatInPlace_iff hpieces hending hapart⟩

end

/-- The three natives.  `vformat` and `vdformat` may also refuse their arguments before they
format anything. -/
theorem natives_format_snapshot (host : Host) (fuel : Nat) (amx : Amx) (params parent : Params)
    (native : CurNative) (m : Memories) :
    SnapshotWhen host fuel (formatClips params) (formatSource amx params) amx (params.get 1)
      (params.get 2).toNat m (format host fuel amx params m) ∧
    ((params.get 4).toInt ≤ parent.count + 1 →
      SnapshotWhen host fuel (vformatClips params parent) (vformatSource amx params parent) amx
        (params.get 1) (params.get 2).toNat m (vformat host fuel amx params parent m)) ∧
    (vdformatRefuses amx params (some native) = false →
      SnapshotWhen host fuel true (vdformatSource amx params native) amx (params.get 1)
        (params.get 2).toNat m (vdformat host fuel amx params (some native) m)) := by
  refine ⟨snapshotWhen_choice _, fun hvalid => ?_, fun hvalid => ?_⟩
  · rw [vformat, if_neg (not_lt.mpr hvalid)]
    exact snapshotWhen_choice _
  · rw [vdformat, hvalid]
    exact snapshotWhen_choice true

/-- `format(buf, 8, "x%s", arg)`, with `buf` at cell 11 and the strings `ab` there. -/
def sampleParams (arg : Cell) : Params where
  count := 4
  get := fun i => if i = 1 then 44 else if i = 2 then 8 else if i = 3 then 0 else arg

def sampleData : List Cell := [120, 37, 115, 0, 97, 98, 0, 0, 0, 0, 97, 98]

def sampleMemories : Memories where
  data := fun _ i => sampleData[i]?.getD 0
  cpbuf := fun _ => 0

def sampleHost : Host where
  vector := fun _ _ => none
  float := fun _ _ _ _ => []

theorem natives_format_snapshot_apart :
    FormatsSnapshot 0 44 8 [120, 97, 98] sampleMemories
      (format sampleHost 12 0 (sampleParams 16) sampleMemories) := by
  have hwhen := (natives_format_snapshot sampleHost 12 0 (sampleParams 16) ⟨0, fun _ => 0⟩
    ⟨0, false, 0, ⟨0, fun _ => 0⟩⟩ sampleMemories).1
  have hboth := hwhen [⟨false, [120]⟩, ⟨true, [97, 98]⟩] .finished (by decide +kernel)
    (Or.inl rfl)
  refine (hboth.2 (by decide +kernel) ?_).mpr (withinInt_of_lt (by decide))
  unfold Apart
  decide +kernel

/-- The argument starts one cell below the destination, where nothing is detected. -/
theorem natives_format_overwritten :
    ¬ ∀ (host : Host) (fuel : Nat) (amx : Amx) (params : Params) (m : Memories)
      (ps : List (Piece 32)),
      ((formatSource amx params).snapshot host m.data).pieces params.count params.get fuel 0 4 =
        some (ps, .finished) →
      FormatsSnapshot amx (params.get 1) (params.get 2).toNat (text ps) m
        (format host fuel amx params m) := by
  intro hall
  obtain ⟨after, hanswer, hdata⟩ := hall sampleHost 12 0 (sampleParams 40) sampleMemories
    [⟨false, [120]⟩, ⟨true, [97, 98]⟩] (by decide +kernel)
  have hcell : (format sampleHost 12 0 (sampleParams 40) sampleMemories).map
      (fun answer => answer.2.data 0 13) = some 120 := by decide +kernel
  rw [hanswer] at hcell
  have hwritten : after.data 0 13 = 120 := Option.some.inj hcell
  rw [hdata] at hwritten
  revert hwritten
  decide +kernel

end AmxModC.Format
