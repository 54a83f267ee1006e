import AmxModC.Foundation.Text

namespace AmxModC.Foundation

/-! A file in the chunks that `fgets` reads one after another. -/

structure IsChunk (size : Nat) (chunk : List Byte) : Prop where
  ne_nil : chunk ≠ []
  front : newline ∉ chunk.dropLast
  length_le : chunk.length ≤ size

def Full (size : Nat) (chunk : List Byte) : Prop :=
  chunk.getLast? = some newline ∨ chunk.length = size

instance (size : Nat) (chunk : List Byte) : Decidable (Full size chunk) :=
  inferInstanceAs (Decidable (chunk.getLast? = some newline ∨ chunk.length = size))

/-- The loop of `fgets`; a chunk is at least one byte, so `fuel` is for the length. -/
def chunksLoop (size : Nat) : Nat → List Byte → List (List Byte)
  | 0, _ => []
  | fuel + 1, file =>
      if file = [] then []
      else (fgets size file).1 :: chunksLoop size fuel (fgets size file).2.1

def chunks (size : Nat) (file : List Byte) : List (List Byte) := chunksLoop size file.length file

def Closed (size : Nat) (file : List Byte) : Prop :=
  ∀ chunk ∈ (chunks size file).getLast?, Full size chunk

instance (size : Nat) (file : List Byte) : Decidable (Closed size file) :=
  inferInstanceAs (Decidable (∀ chunk ∈ (chunks size file).getLast?, Full size chunk))

section

variable {size : Nat} {file chunk rest front last : List Byte} {c : Byte}

theorem IsChunk.newline_or_free (h : IsChunk size chunk) :
    newline ∉ chunk ∨ ∃ line, newline ∉ line ∧ chunk = line ++ [newline] := by
  obtain ⟨line, c, hchunk⟩ := List.eq_nil_or_concat chunk |>.resolve_left h.ne_nil
  rw [List.concat_eq_append] at hchunk
  have hline : newline ∉ line := by
    have hfront := h.front
    rwa [hchunk, List.dropLast_concat] at hfront
  by_cases hc : c = newline
  · exact .inr ⟨line, hline, hc ▸ hchunk⟩
  · left
    rw [hchunk, List.mem_append, List.mem_singleton, not_or]
    exact ⟨hline, Ne.symm hc⟩

theorem fgets_isChunk (h : IsChunk size chunk) (hfull : Full size chunk) (rest : List Byte) :
    fgets size (chunk ++ rest) = (chunk, rest, false) := by
  rcases h.newline_or_free with hfree | ⟨line, hline, rfl⟩
  · rcases hfull with hlast | hlength
    · exact absurd (List.mem_of_getLast? hlast) hfree
    · rw [← hlength, fgets_full hfree]
  · have hlength := h.length_le
    rw [List.length_append, List.length_singleton] at hlength
    rw [List.append_assoc, List.singleton_append, fgets_line hline hlength]

theorem fgets_open (h : IsChunk size chunk) (hopen : ¬ Full size chunk) :
    fgets size chunk = (chunk, [], true) := by
  rcases h.newline_or_free with hfree | ⟨line, -, rfl⟩
  · exact fgets_last hfree (Nat.lt_of_le_of_ne h.length_le fun heq => hopen (.inr heq))
  · exact absurd (.inl List.getLast?_concat) hopen

theorem fgets_chunk (h : IsChunk size chunk) (hends : Full size chunk ∨ rest = []) :
    ∃ eof, fgets size (chunk ++ rest) = (chunk, rest, eof) := by
  by_cases hfull : Full size chunk
  · exact ⟨_, fgets_isChunk h hfull rest⟩
  · obtain rfl := hends.resolve_left hfull
    rw [List.append_nil]
    exact ⟨_, fgets_open h hfull⟩

theorem exists_chunk (hsize : 0 < size) (hne : file ≠ []) :
    ∃ chunk rest, file = chunk ++ rest ∧ IsChunk size chunk ∧ (Full size chunk ∨ rest = []) := by
  by_cases hline : newline ∈ file.take size
  · obtain ⟨line, back, htake, hfree⟩ := List.eq_append_cons_of_mem hline
    have hlength := congrArg List.length htake
    rw [List.length_take, List.length_append, List.length_cons] at hlength
    refine ⟨line ++ [newline], back ++ file.drop size, ?_, ⟨?_, ?_, ?_⟩, .inl (.inl ?_)⟩
    · conv_lhs => rw [← List.take_append_drop size file, htake]
      simp only [List.append_assoc, List.cons_append, List.nil_append]
    · exact List.append_ne_nil_of_right_ne_nil _ (List.cons_ne_nil _ _)
    · rwa [List.dropLast_concat]
    · rw [List.length_append, List.length_singleton]
      omega
    · exact List.getLast?_concat
  · have hlength : (file.take size).length = min size file.length := List.length_take
    have hpos := List.length_pos_iff.mpr hne
    refine ⟨file.take size, file.drop size, (List.take_append_drop size file).symm, ⟨?_, ?_, ?_⟩, ?_⟩
    · exact List.length_pos_iff.mp (by omega)
    · exact fun hmem => hline ((List.dropLast_sublist _).subset hmem)
    · omega
    · rcases Nat.lt_or_ge file.length size with hlt | hge
      · exact .inr (List.drop_eq_nil_of_le (Nat.le_of_lt hlt))
      · exact .inl (.inr (by omega))

theorem chunks_induction {motive : List Byte → Prop} (hsize : 0 < size) (nil : motive [])
    (more : ∀ chunk rest, IsChunk size chunk → (Full size chunk ∨ rest = []) → motive rest →
      motive (chunk ++ rest))
    (file : List Byte) : motive file := by
  induction hlength : file.length using Nat.strong_induction_on generalizing file with
  | _ length ih =>
      by_cases hne : file = []
      · exact hne ▸ nil
      · obtain ⟨chunk, rest, rfl, hchunk, hends⟩ := exists_chunk hsize hne
        have hpos := List.length_pos_iff.mpr hchunk.ne_nil
        refine more chunk rest hchunk hends (ih rest.length ?_ rest rfl)
        rw [← hlength, List.length_append]
        omega

theorem chunksLoop_chunk (h : IsChunk size chunk) (hends : Full size chunk ∨ rest = [])
    (fuel : Nat) :
    chunksLoop size (fuel + 1) (chunk ++ rest) = chunk :: chunksLoop size fuel rest := by
  obtain ⟨eof, hfgets⟩ := fgets_chunk h hends
  rw [chunksLoop, if_neg (List.append_ne_nil_of_left_ne_nil h.ne_nil _), hfgets]

theorem chunksLoop_nil (fuel : Nat) : chunksLoop size fuel [] = [] := by
  cases fuel <;> rfl

theorem chunksLoop_eq (hsize : 0 < size) {fuel : Nat} (hfuel : file.length ≤ fuel) :
    chunksLoop size fuel file = chunks size file := by
  induction file using chunks_induction hsize generalizing fuel with
  | nil => rw [chunksLoop_nil, chunks, chunksLoop_nil]
  | more chunk rest hchunk hends ih =>
      have hpos := List.length_pos_iff.mpr hchunk.ne_nil
      rw [List.length_append] at hfuel
      obtain ⟨fuel, rfl⟩ := Nat.exists_eq_add_one_of_ne_zero (by omega : fuel ≠ 0)
      obtain ⟨n, hn⟩ := Nat.exists_eq_add_one_of_ne_zero (by omega : chunk.length ≠ 0)
      have hlength : (chunk ++ rest).length = n + rest.length + 1 := by
        rw [List.length_append, hn]
        omega
      rw [chunks, hlength, chunksLoop_chunk hchunk hends, chunksLoop_chunk hchunk hends,
        ih (by omega), ih (by omega)]

@[simp] theorem chunks_nil : chunks size [] = [] := rfl

theorem chunks_chunk (h : IsChunk size chunk) (hends : Full size chunk ∨ rest = []) :
    chunks size (chunk ++ rest) = chunk :: chunks size rest := by
  have hpos := List.length_pos_iff.mpr h.ne_nil
  have hsize : 0 < size := Nat.lt_of_lt_of_le hpos h.length_le
  have hle : (chunk ++ rest).length ≤ rest.length + chunk.length := by
    rw [List.length_append]
    omega
  obtain ⟨n, hn⟩ := Nat.exists_eq_add_one_of_ne_zero (by omega : chunk.length ≠ 0)
  rw [← chunksLoop_eq hsize hle, hn, ← Nat.add_assoc, chunksLoop_chunk h hends,
    chunksLoop_eq hsize (Nat.le_add_right _ _)]

theorem chunks_one (h : IsChunk size chunk) : chunks size chunk = [chunk] := by
  have hone := chunks_chunk h (.inr rfl)
  rwa [List.append_nil, chunks_nil] at hone

theorem flatten_chunks (hsize : 0 < size) (file : List Byte) : (chunks size file).flatten = file := by
  induction file using chunks_induction hsize with
  | nil => rfl
  | more chunk rest hchunk hends ih => rw [chunks_chunk hchunk hends, List.flatten_cons, ih]

theorem chunks_ne_nil (hsize : 0 < size) (hne : file ≠ []) : chunks size file ≠ [] := by
  obtain ⟨chunk, rest, rfl, hchunk, hends⟩ := exists_chunk hsize hne
  rw [chunks_chunk hchunk hends]
  exact List.cons_ne_nil _ _

theorem isChunk_of_mem (hsize : 0 < size) (h : chunk ∈ chunks size file) : IsChunk size chunk := by
  induction file using chunks_induction hsize with
  | nil => cases h
  | more first rest hchunk hends ih =>
      rw [chunks_chunk hchunk hends, List.mem_cons] at h
      rcases h with rfl | hrest
      · exact hchunk
      · exact ih hrest

theorem closed_nil : Closed size [] := fun _ hmem => nomatch hmem

theorem closed_chunk (h : IsChunk size chunk) (hends : Full size chunk ∨ rest = []) :
    Closed size (chunk ++ rest) ↔ Full size chunk ∧ Closed size rest := by
  rw [Closed, Closed, chunks_chunk h hends]
  by_cases hrest : rest = []
  · subst hrest
    rw [chunks_nil]
    exact ⟨fun hall => ⟨hall chunk rfl, fun _ hmem => nomatch hmem⟩,
      fun hfull _ hmem => Option.some.inj hmem ▸ hfull.1⟩
  · have hfull := hends.resolve_right hrest
    have hsize : 0 < size := Nat.lt_of_lt_of_le (List.length_pos_iff.mpr h.ne_nil) h.length_le
    rw [List.getLast?_cons_of_ne_nil (chunks_ne_nil hsize hrest), and_iff_right hfull]

/-! A file up to one of its chunks, and from there on. -/

theorem chunks_take (hsize : 0 < size) {n : Nat} (hn : n < (chunks size file).length) :
    Closed size ((chunks size file).take n).flatten ∧
      chunks size ((chunks size file).take n).flatten = (chunks size file).take n := by
  induction file using chunks_induction hsize generalizing n with
  | nil => exact absurd hn (Nat.not_lt_zero n)
  | more chunk rest hchunk hends ih =>
      rw [chunks_chunk hchunk hends, List.length_cons] at hn
      rw [chunks_chunk hchunk hends]
      cases n with
      | zero => exact ⟨closed_nil, rfl⟩
      | succ n =>
          obtain ⟨hclosed, hchunks⟩ := ih (Nat.lt_of_succ_lt_succ hn)
          have hfull : Full size chunk := by
            refine hends.resolve_right fun hrest => ?_
            rw [hrest, chunks_nil, List.length_nil] at hn
            omega
          rw [List.take_succ_cons, List.flatten_cons, closed_chunk hchunk (.inl hfull),
            chunks_chunk hchunk (.inl hfull), hchunks]
          exact ⟨⟨hfull, hclosed⟩, rfl⟩

theorem chunks_drop (hsize : 0 < size) (n : Nat) (file : List Byte) :
    chunks size ((chunks size file).drop n).flatten = (chunks size file).drop n := by
  induction file using chunks_induction hsize generalizing n with
  | nil =>
      rw [chunks_nil, List.drop_nil]
      rfl
  | more chunk rest hchunk hends ih =>
      cases n with
      | zero => rw [List.drop_zero, flatten_chunks hsize]
      | succ n => rw [chunks_chunk hchunk hends, List.drop_succ_cons, ih n]

theorem full_at (hsize : 0 < size) {n : Nat} (hn : (chunks size file)[n]? = some chunk) :
    Full size chunk ∨ ((chunks size file).drop (n + 1)).flatten = [] := by
  induction file using chunks_induction hsize generalizing n with
  | nil => cases hn
  | more first rest hchunk hends ih =>
      rw [chunks_chunk hchunk hends] at hn ⊢
      rw [List.drop_succ_cons]
      cases n with
      | zero =>
          obtain rfl := Option.some.inj hn
          rwa [List.drop_zero, flatten_chunks hsize]
      | succ n => exact ih hn

theorem chunks_append (hsize : 0 < size) (hclosed : Closed size file) (rest : List Byte) :
    chunks size (file ++ rest) = chunks size file ++ chunks size rest := by
  induction file using chunks_induction hsize with
  | nil => rfl
  | more chunk between hchunk hends ih =>
      obtain ⟨hfull, hbetween⟩ := (closed_chunk hchunk hends).mp hclosed
      rw [List.append_assoc, chunks_chunk hchunk (.inl hfull), ih hbetween,
        chunks_chunk hchunk hends, List.cons_append]

theorem closed_append (hsize : 0 < size) (hclosed : Closed size file) (rest : List Byte) :
    Closed size (file ++ rest) ↔ Closed size rest := by
  induction file using chunks_induction hsize with
  | nil => rfl
  | more chunk between hchunk hends ih =>
      obtain ⟨hfull, hbetween⟩ := (closed_chunk hchunk hends).mp hclosed
      rw [List.append_assoc, closed_chunk hchunk (.inl hfull), ih hbetween, and_iff_right hfull]

theorem exists_open (hsize : 0 < size) (hopen : ¬ Closed size file) :
    ∃ front last, file = front ++ last ∧ Closed size front ∧ IsChunk size last ∧
      ¬ Full size last := by
  induction file using chunks_induction hsize with
  | nil => exact absurd closed_nil hopen
  | more chunk rest hchunk hends ih =>
      rw [closed_chunk hchunk hends, not_and] at hopen
      by_cases hfull : Full size chunk
      · obtain ⟨front, last, rfl, hfront, hlast⟩ := ih (hopen hfull)
        refine ⟨chunk ++ front, last, (List.append_assoc ..).symm, ?_, hlast⟩
        exact (closed_chunk hchunk (.inl hfull)).mpr ⟨hfull, hfront⟩
      · obtain rfl := hends.resolve_left hfull
        exact ⟨[], chunk, List.append_nil chunk, closed_nil, hchunk, hfull⟩

theorem IsChunk.free (h : IsChunk size chunk) (hopen : ¬ Full size chunk) : newline ∉ chunk := by
  rcases h.newline_or_free with hfree | ⟨line, -, rfl⟩
  · exact hfree
  · exact absurd (.inl List.getLast?_concat) hopen

theorem isChunk_line (hline : newline ∉ front) (hlength : front.length < size) :
    IsChunk size (front ++ [newline]) where
  ne_nil := List.append_ne_nil_of_right_ne_nil _ (List.cons_ne_nil _ _)
  front := by rwa [List.dropLast_concat]
  length_le := by
    rw [List.length_append, List.length_singleton]
    exact hlength

theorem full_line : Full size (front ++ [newline]) := .inl List.getLast?_concat

theorem chunks_line (hline : newline ∉ front) (hlength : front.length < size) (rest : List Byte) :
    chunks size (front ++ newline :: rest) = (front ++ [newline]) :: chunks size rest := by
  have hsplit : front ++ newline :: rest = (front ++ [newline]) ++ rest := by
    rw [List.append_assoc, List.singleton_append]
  rw [hsplit, chunks_chunk (isChunk_line hline hlength) (.inl full_line)]

theorem chunks_newline (hsize : 0 < size) (rest : List Byte) :
    chunks size (newline :: rest) = [newline] :: chunks size rest := by
  have hone : IsChunk size [newline] := ⟨List.cons_ne_nil _ _, List.not_mem_nil, hsize⟩
  exact chunks_chunk hone (.inl (.inl rfl))

theorem closed_newlines (hsize : 0 < size) (n : Nat) :
    chunks size (List.replicate n newline) = List.replicate n [newline] ∧
      Closed size (List.replicate n newline) := by
  induction n with
  | zero => exact ⟨rfl, closed_nil⟩
  | succ n ih =>
      have hone : IsChunk size [newline] := ⟨List.cons_ne_nil _ _, List.not_mem_nil, hsize⟩
      have hfull : Full size [newline] := .inl rfl
      have hsplit : List.replicate (n + 1) newline = [newline] ++ List.replicate n newline := rfl
      rw [hsplit, chunks_chunk hone (.inl hfull), closed_chunk hone (.inl hfull), ih.1]
      exact ⟨rfl, hfull, ih.2⟩

end

/-! Counting chunks. -/

section

variable {size large : Nat} {file chunk rest : List Byte}

theorem length_chunks_cons_le (hsize : 0 < size) (c : Byte) (file : List Byte) :
    (chunks size file).length ≤ (chunks size (c :: file)).length := by
  induction file using chunks_induction hsize generalizing c with
  | nil => exact Nat.zero_le _
  | more chunk rest hchunk hends ih =>
      rw [chunks_chunk hchunk hends, List.length_cons]
      by_cases hc : c = newline
      · rw [hc, chunks_newline hsize, chunks_chunk hchunk hends, List.length_cons, List.length_cons]
        omega
      · by_cases hroom : chunk.length < size
        · have hlonger : IsChunk size (c :: chunk) := by
            refine ⟨List.cons_ne_nil _ _, ?_, hroom⟩
            rw [List.dropLast_cons_of_ne_nil hchunk.ne_nil, List.mem_cons, not_or]
            exact ⟨Ne.symm hc, hchunk.front⟩
          have hends' : Full size (c :: chunk) ∨ rest = [] := by
            refine hends.imp_left fun hfull => .inl ?_
            rw [List.getLast?_cons_of_ne_nil hchunk.ne_nil]
            exact hfull.resolve_right (Nat.ne_of_lt hroom)
          rw [← List.cons_append, chunks_chunk hlonger hends', List.length_cons]
        · obtain ⟨front, d, hfront⟩ := List.eq_nil_or_concat chunk |>.resolve_left hchunk.ne_nil
          rw [List.concat_eq_append] at hfront
          have hlength := hchunk.length_le
          rw [hfront, List.length_append, List.length_singleton] at hlength hroom
          have hshifted : IsChunk size (c :: front) := by
            refine ⟨List.cons_ne_nil _ _, fun hmem => ?_, by rw [List.length_cons]; omega⟩
            have hfree := hchunk.front
            rw [hfront, List.dropLast_concat] at hfree
            rcases List.mem_cons.mp ((List.dropLast_sublist _).subset hmem) with heq | hin
            · exact hc heq.symm
            · exact hfree hin
          have hfull : Full size (c :: front) := .inr (by rw [List.length_cons]; omega)
          have hsplit : c :: (chunk ++ rest) = (c :: front) ++ (d :: rest) := by
            rw [hfront, List.append_assoc, List.singleton_append, List.cons_append]
          rw [hsplit, chunks_chunk hshifted (.inl hfull), List.length_cons]
          exact Nat.succ_le_succ (ih d)

theorem length_chunks_append_le (hsize : 0 < size) (front file : List Byte) :
    (chunks size file).length ≤ (chunks size (front ++ file)).length := by
  induction front with
  | nil => exact le_rfl
  | cons c front ih => exact ih.trans (length_chunks_cons_le hsize c _)

theorem exists_first (hsize : 0 < size) (hlong : size ≤ file.length) (rest : List Byte) :
    ∃ chunk behind, file = chunk ++ behind ∧ chunk.length ≤ size ∧
      chunks size (file ++ rest) = chunk :: chunks size (behind ++ rest) := by
  have hne : file ++ rest ≠ [] := by
    refine List.append_ne_nil_of_left_ne_nil (List.length_pos_iff.mp ?_) _
    omega
  obtain ⟨chunk, back, hsplit, hchunk, hends⟩ := exists_chunk hsize hne
  have hlength := hchunk.length_le
  have hfile : chunk = file.take chunk.length := by
    have htake : (file ++ rest).take chunk.length = file.take chunk.length :=
      List.take_append_of_le_length (by omega)
    rw [← htake, hsplit, List.take_left]
  have hback : back = file.drop chunk.length ++ rest := by
    rw [← List.drop_append_of_le_length (by omega), hsplit, List.drop_left]
  refine ⟨chunk, file.drop chunk.length, ?_, hlength, ?_⟩
  · conv_rhs => rw [hfile]
    rw [List.length_take, Nat.min_eq_left (by omega), List.take_append_drop]
  · rw [hsplit, chunks_chunk hchunk hends, hback]

theorem length_chunks_lt (hsize : 0 < size) (hlong : size ≤ file.length) (rest : List Byte) :
    (chunks size rest).length + 1 ≤ (chunks size (file ++ rest)).length := by
  obtain ⟨chunk, behind, -, -, hchunks⟩ := exists_first hsize hlong rest
  rw [hchunks, List.length_cons]
  exact Nat.succ_le_succ (length_chunks_append_le hsize behind rest)

theorem chunks_smaller (hsize : 0 < size) (hlarge : 2 * size ≤ large) (h : IsChunk large chunk)
    (hends : Full large chunk ∨ rest = []) :
    chunks size (chunk ++ rest) = chunk :: chunks size rest ∨
      (chunks size rest).length + 2 ≤ (chunks size (chunk ++ rest)).length := by
  by_cases hshort : chunk.length ≤ size
  · left
    refine chunks_chunk ⟨h.ne_nil, h.front, hshort⟩ (hends.imp_left fun hfull => ?_)
    exact .inl (hfull.resolve_right (by omega))
  · right
    obtain ⟨first, behind, rfl, hfirst, hchunks⟩ :=
      exists_first hsize (Nat.le_of_not_le hshort) rest
    rw [List.length_append] at hshort
    rw [hchunks, List.length_cons]
    refine Nat.succ_le_succ ?_
    obtain ⟨front, d, hbehind⟩ := List.eq_nil_or_concat behind |>.resolve_left fun hnil => by
      rw [hnil, List.length_nil] at hshort
      omega
    rw [List.concat_eq_append] at hbehind
    subst hbehind
    rcases hends with hnewline | hlength
    · -- the newline ends a chunk wherever it is
      rcases hnewline with hlast | hlength
      · rw [← List.append_assoc, List.getLast?_concat] at hlast
        obtain rfl := Option.some.inj hlast
        have hmore := length_chunks_append_le hsize front (newline :: rest)
        rw [chunks_newline hsize, List.length_cons] at hmore
        rwa [List.append_assoc, List.singleton_append]
      · rw [List.length_append] at hlength
        exact length_chunks_lt hsize (by omega) rest
    · subst hlength
      have hmore := chunks_ne_nil hsize
        (List.append_ne_nil_of_right_ne_nil front (List.cons_ne_nil d []))
      rw [List.append_nil]
      exact List.length_pos_iff.mpr hmore

theorem chunks_of_length_le (hsize : 0 < size) (hlarge : 2 * size ≤ large) (n : Nat)
    (file : List Byte) :
    ((chunks large file).take n).length ≤
        (chunks size ((chunks large file).take n).flatten).length ∧
      ((chunks size ((chunks large file).take n).flatten).length ≤
          ((chunks large file).take n).length →
        chunks size ((chunks large file).take n).flatten = (chunks large file).take n) := by
  induction file using chunks_induction (by omega : 0 < large) generalizing n with
  | nil =>
      rw [chunks_nil, List.take_nil]
      exact ⟨le_rfl, fun _ => rfl⟩
  | more chunk rest hchunk hends ih =>
      cases n with
      | zero => exact ⟨Nat.zero_le _, fun _ => rfl⟩
      | succ n =>
          obtain ⟨hle, hsame⟩ := ih n
          rw [chunks_chunk hchunk hends, List.take_succ_cons, List.flatten_cons, List.length_cons]
          have hends' : Full large chunk ∨ ((chunks large rest).take n).flatten = [] := by
            refine hends.imp_right fun hrest => ?_
            rw [hrest, chunks_nil, List.take_nil, List.flatten_nil]
          rcases chunks_smaller hsize hlarge hchunk hends' with hone | hmore
          · rw [hone, List.length_cons, List.cons.injEq]
            exact ⟨Nat.succ_le_succ hle, fun h => ⟨rfl, hsame (Nat.le_of_succ_le_succ h)⟩⟩
          · exact ⟨by omega, fun h => by omega⟩

end

end AmxModC.Foundation
