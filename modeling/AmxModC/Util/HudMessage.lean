import AmxModC.Foundation.Block
import AmxModC.Foundation.CString
import AmxModC.Foundation.Text

namespace AmxModC.Util.HudMessage

open Foundation

/-! `UTIL_SplitHudMessage` -/

def blank : Byte := 32

/-- The static `message`, with what an earlier call left in it. -/
abbrev Message := { message : List Byte // message.length = 512 }

/-- `src[d]` is the next of the characters that are left. -/
structure Split where
  message : List Byte
  b : Int
  c : Int
  e : Nat

/-- A turn of the loop up to `++b`. -/
def put (ch : Byte) (s : Split) : Option Split := do
  let message ← Block.write s.message s.e [ch]
  if ch = blank then some ⟨message, s.b + 1, s.e, s.e + 1⟩
  else if ch = newline then some ⟨message, 0 + 1, -1, s.e + 1⟩
  else some ⟨message, s.b + 1, s.c, s.e + 1⟩

def wrap (s : Split) : Option Split :=
  if s.b = 69 then
    if s.c = -1 then
      (Block.write s.message s.e [newline]).map fun message => ⟨message, 0, s.c, s.e + 1⟩
    else if s.c < 0 then none
    else
      (Block.write s.message s.c.toNat [newline]).map fun message =>
        ⟨message, s.e - s.c - 1, -1, s.e⟩
  else some s

def splitLoop : List Byte → Split → Option Split
  | [], s => some s
  | ch :: rest, s =>
      if s.e < 480 then ((put ch s).bind wrap).bind (splitLoop rest) else some s

def splitHudMessage (message : Message) (src : CString) : Option (List Byte) :=
  (splitLoop src.bytes ⟨message, 0, -1, 0⟩).bind fun s => Block.write s.message s.e [0]

inductive Broken : List Byte → List Byte → Prop
  | nil : Broken [] []
  | same (ch : Byte) {text out : List Byte} (h : Broken text out) : Broken (ch :: text) (ch :: out)
  | replaced {text out : List Byte} (h : Broken text out) :
      Broken (blank :: text) (newline :: out)
  | inserted {text out : List Byte} (h : Broken text out) : Broken text (newline :: out)

section

variable {text out front after : List Byte} {ch : Byte}

theorem Broken.concat (h : Broken text out) (ch : Byte) : Broken (text ++ [ch]) (out ++ [ch]) := by
  induction h with
  | nil => exact .same ch .nil
  | same other _ ih => exact .same other ih
  | replaced _ ih => exact .replaced ih
  | inserted _ ih => exact .inserted ih

theorem Broken.insert (h : Broken text out) : Broken text (out ++ [newline]) := by
  induction h with
  | nil => exact .inserted .nil
  | same other _ ih => exact .same other ih
  | replaced _ ih => exact .replaced ih
  | inserted _ ih => exact .inserted ih

theorem Broken.replace (h : Broken text (front ++ blank :: after)) :
    Broken text (front ++ newline :: after) := by
  induction front generalizing text with
  | nil =>
      cases h with
      | same _ h => exact .replaced h
  | cons other front ih =>
      cases h with
      | same _ h => exact .same other (ih h)
      | replaced h => exact .replaced (ih h)
      | inserted h => exact .inserted (ih h)

theorem Broken.noNul (h : Broken text out) (hnul : 0 ∉ text) : 0 ∉ out := by
  induction h with
  | nil => exact hnul
  | same other _ ih =>
      obtain ⟨hother, hrest⟩ := List.ne_and_not_mem_of_not_mem_cons hnul
      exact List.not_mem_cons_of_ne_of_not_mem hother (ih hrest)
  | replaced _ ih =>
      exact List.not_mem_cons_of_ne_of_not_mem (by decide)
        (ih (List.not_mem_of_not_mem_cons hnul))
  | inserted _ ih => exact List.not_mem_cons_of_ne_of_not_mem (by decide) (ih hnul)

end

def joined (ended : List (List Byte)) (last : List Byte) : List Byte :=
  ended.flatMap (· ++ [newline]) ++ last

theorem lines_joined {ended : List (List Byte)} {last : List Byte}
    (hended : ∀ line ∈ ended, newline ∉ line) (hlast : newline ∉ last) :
    lines (joined ended last) = ended ++ [last] := by
  induction ended with
  | nil => exact lines_last hlast
  | cons line rest ih =>
      obtain ⟨hline, hrest⟩ := List.forall_mem_cons.mp hended
      have hshape : joined (line :: rest) last = line ++ newline :: joined rest last := by
        simp [joined]
      rw [hshape, lines_line hline, ih hrest, List.cons_append]

theorem joined_concat (ended : List (List Byte)) (line last : List Byte) :
    joined (ended ++ [line]) last = joined ended line ++ newline :: last := by
  simp [joined]

theorem joined_end (ended : List (List Byte)) (last : List Byte) :
    joined (ended ++ [last]) [] = joined ended last ++ [newline] :=
  joined_concat ended last []

theorem joined_append (ended : List (List Byte)) (line last : List Byte) :
    joined ended (line ++ last) = joined ended line ++ last := (List.append_assoc _ _ _).symm

/-- Where the loop stands: what was taken of the message, the lines it made of it, and a count of
the characters of the last line that may be one too many. -/
structure Holds (bound : Int) (s : Split) (taken : List Byte) (ended : List (List Byte))
    (last : List Byte) : Prop where
  length : s.message.length = 512
  written : joined ended last <+: s.message
  e : s.e = (joined ended last).length
  broken : Broken taken (joined ended last)
  short : ∀ line ∈ ended, newline ∉ line ∧ line.length ≤ 69
  open_line : newline ∉ last
  count : last.length ≤ s.b
  bounded : s.b ≤ bound
  c : s.c = -1 ∨ ∃ before after, last = before ++ blank :: after ∧
    s.c = (joined ended before).length

section

variable {bound : Int} {s : Split} {taken last : List Byte} {ended : List (List Byte)}

theorem Holds.short_concat (h : Holds bound s taken ended last) {line : List Byte}
    (hline : newline ∉ line) (hle : line.length ≤ 69) :
    ∀ other ∈ ended ++ [line], newline ∉ other ∧ other.length ≤ 69 :=
  List.forall_mem_append.mpr ⟨h.short, List.forall_mem_singleton.mpr ⟨hline, hle⟩⟩

theorem Holds.exists_write (h : Holds bound s taken ended last) (ch : Byte) (he : s.e < 512) :
    ∃ message, Block.write s.message s.e [ch] = some message ∧ message.length = 512 ∧
      joined ended last ++ [ch] <+: message := by
  have hlength := h.length
  obtain ⟨rest, hwrite, hsame⟩ := Block.exists_write_behind h.written ch (by rw [← h.e]; omega)
  rw [← h.e] at hwrite
  refine ⟨_, hwrite, hsame.trans hlength, rest, ?_⟩
  rw [List.append_assoc, List.singleton_append]

theorem Holds.put_newline (h : Holds 68 s taken ended last) (he : s.e < 480) :
    ∃ s', put newline s = some s' ∧ Holds 69 s' (taken ++ [newline]) (ended ++ [last]) [] ∧
      s'.e = s.e + 1 := by
  obtain ⟨message, hwrite, hlength, hwritten⟩ := h.exists_write newline (by omega)
  have hshape := joined_end ended last
  have hcount := h.count
  have hbounded := h.bounded
  have hput : put newline s = some ⟨message, 0 + 1, -1, s.e + 1⟩ := by
    rw [put, hwrite]
    rfl
  refine ⟨_, hput, ⟨hlength, hshape ▸ hwritten, ?_, hshape ▸ h.broken.concat newline,
    h.short_concat h.open_line (by omega), List.not_mem_nil, by simp, by simp, .inl rfl⟩, rfl⟩
  rw [hshape, List.length_append, h.e, List.length_singleton]

theorem Holds.put_other (h : Holds 68 s taken ended last) (he : s.e < 480) {ch : Byte}
    (hne : ch ≠ newline) :
    ∃ s', put ch s = some s' ∧ Holds 69 s' (taken ++ [ch]) ended (last ++ [ch]) ∧
      s'.e = s.e + 1 := by
  obtain ⟨message, hwrite, hlength, hwritten⟩ := h.exists_write ch (by omega)
  have hshape : joined ended (last ++ [ch]) = joined ended last ++ [ch] :=
    joined_append ended last [ch]
  have hput : put ch s = some ⟨message, s.b + 1, if ch = blank then s.e else s.c, s.e + 1⟩ := by
    rw [put, hwrite, Option.bind_eq_bind, Option.bind_some, if_neg hne]
    split <;> rfl
  have hcount := h.count
  have hbounded := h.bounded
  refine ⟨_, hput, ⟨hlength, hshape ▸ hwritten, ?_, hshape ▸ h.broken.concat ch, h.short, ?_, ?_,
    by simp only; omega, ?_⟩, rfl⟩
  · rw [hshape, List.length_append, h.e, List.length_singleton]
  · exact List.not_mem_append h.open_line fun hmem => hne (List.mem_singleton.mp hmem).symm
  · rw [List.length_append, List.length_singleton]
    push_cast
    omega
  · simp only
    split
    · exact .inr ⟨last, [], by simp_all, by rw [h.e]⟩
    · rcases h.c with hnone | ⟨before, after, rfl, hc⟩
      · exact .inl hnone
      · exact .inr ⟨before, after ++ [ch], by simp, hc⟩

theorem Holds.put (h : Holds 68 s taken ended last) (he : s.e < 480) (ch : Byte) :
    ∃ s' ended' last', put ch s = some s' ∧ Holds 69 s' (taken ++ [ch]) ended' last' ∧
      s'.e = s.e + 1 := by
  by_cases hnewline : ch = newline
  · subst hnewline
    obtain ⟨s', hput, hholds⟩ := h.put_newline he
    exact ⟨s', _, _, hput, hholds⟩
  · obtain ⟨s', hput, hholds⟩ := h.put_other he hnewline
    exact ⟨s', _, _, hput, hholds⟩

theorem Holds.wrap_insert (h : Holds 69 s taken ended last) (he : s.e ≤ 480) (hfull : s.b = 69)
    (hnone : s.c = -1) :
    ∃ s' ended' last', wrap s = some s' ∧ Holds 68 s' taken ended' last' ∧ s'.e ≤ s.e + 1 := by
  have hcount := h.count
  obtain ⟨message, hwrite, hsame, hwritten⟩ := h.exists_write newline (by omega)
  have hshape := joined_end ended last
  rw [HudMessage.wrap, if_pos hfull, if_pos hnone, hwrite, Option.map_some]
  refine ⟨_, ended ++ [last], [], rfl, ⟨hsame, hshape ▸ hwritten, ?_, hshape ▸ h.broken.insert,
    h.short_concat h.open_line (by omega), List.not_mem_nil, by simp, by simp, .inl hnone⟩,
    Nat.le_refl _⟩
  rw [hshape, List.length_append, h.e, List.length_singleton]

theorem Holds.wrap_replace {before after : List Byte}
    (h : Holds 69 s taken ended (before ++ blank :: after)) (hfull : s.b = 69)
    (hc : s.c = (joined ended before).length) :
    ∃ s' ended' last', wrap s = some s' ∧ Holds 68 s' taken ended' last' ∧ s'.e ≤ s.e + 1 := by
  have hcount := h.count
  have hlength := h.length
  have hshape : joined (ended ++ [before]) after = joined ended before ++ newline :: after :=
    joined_concat ended before after
  have hold : joined ended (before ++ blank :: after) =
      joined ended before ++ blank :: after := joined_append ended before _
  have hwritten := h.written
  have hbroken := h.broken
  have hlast := h.e
  rw [hold] at hwritten hbroken hlast
  rw [List.length_append, List.length_cons] at hcount
  push_cast at hcount
  obtain ⟨rest, hrest⟩ := hwritten
  have hwrite : Block.write s.message s.c.toNat [newline] =
      some (joined ended before ++ newline :: (after ++ rest)) := by
    rw [hc, Int.toNat_natCast, ← hrest, List.append_assoc, List.cons_append]
    exact Block.write_middle _ _ _ _
  have hbefore : newline ∉ before := fun hmem => h.open_line (List.mem_append_left _ hmem)
  have hafter : newline ∉ after := fun hmem =>
    h.open_line (List.mem_append_right _ (List.mem_cons_of_mem _ hmem))
  rw [HudMessage.wrap, if_pos hfull, if_neg (by omega), if_neg (by omega), hwrite, Option.map_some]
  refine ⟨_, ended ++ [before], after, rfl, ⟨?_, ?_, ?_, hshape ▸ hbroken.replace,
    h.short_concat hbefore (by omega), hafter, ?_, ?_, .inl rfl⟩, Nat.le_succ _⟩
  · rw [List.length_append, List.length_cons, List.length_append]
    have hall := congrArg List.length hrest
    rw [List.length_append, List.length_append, List.length_cons, hlength] at hall
    omega
  · rw [hshape]
    exact ⟨rest, List.append_assoc _ _ _⟩
  · rw [hshape, hlast, List.length_append, List.length_append, List.length_cons,
      List.length_cons]
  · rw [List.length_append, List.length_cons] at hlast
    simp only
    omega
  · rw [List.length_append, List.length_cons] at hlast
    simp only
    omega

theorem Holds.wrap (h : Holds 69 s taken ended last) (he : s.e ≤ 480) :
    ∃ s' ended' last', wrap s = some s' ∧ Holds 68 s' taken ended' last' ∧ s'.e ≤ s.e + 1 := by
  by_cases hfull : s.b = 69
  · rcases h.c with hnone | ⟨before, after, rfl, hc⟩
    · exact h.wrap_insert he hfull hnone
    · exact h.wrap_replace hfull hc
  · have hbounded := h.bounded
    refine ⟨s, ended, last, ?_, { h with bounded := by omega }, Nat.le_succ _⟩
    rw [HudMessage.wrap, if_neg hfull]

theorem Holds.turn (h : Holds 68 s taken ended last) (he : s.e < 480) (ch : Byte) :
    ∃ s' ended' last', (HudMessage.put ch s).bind HudMessage.wrap = some s' ∧
      Holds 68 s' (taken ++ [ch]) ended' last' ∧ s'.e ≤ 481 := by
  obtain ⟨middle, ended', last', hput, hmiddle, hlt⟩ := h.put he ch
  obtain ⟨s', ended'', last'', hwrap, hholds, hle⟩ := hmiddle.wrap (by omega)
  exact ⟨s', ended'', last'', by rw [hput, Option.bind_some, hwrap], hholds, by omega⟩

theorem Holds.loop (h : Holds 68 s taken ended last) (he : s.e ≤ 481) (rest : List Byte) :
    ∃ s' taken' ended' last', splitLoop rest s = some s' ∧ taken' <+: taken ++ rest ∧
      Holds 68 s' taken' ended' last' ∧ s'.e ≤ 481 := by
  induction rest generalizing s taken ended last with
  | nil =>
      refine ⟨s, taken, ended, last, rfl, ?_, h, he⟩
      rw [List.append_nil]
  | cons ch rest ih =>
      rw [splitLoop]
      by_cases hroom : s.e < 480
      · obtain ⟨next, ended', last', hturn, hholds, hle⟩ := h.turn hroom ch
        obtain ⟨s', taken', ended'', last'', hloop, htaken, hfinal⟩ := ih hholds hle
        rw [if_pos hroom, hturn, Option.bind_some, hloop]
        rw [List.append_assoc, List.singleton_append] at htaken
        exact ⟨s', taken', ended'', last'', rfl, htaken, hfinal⟩
      · rw [if_neg hroom]
        exact ⟨s, taken, ended, last, rfl, List.prefix_append _ _, h, he⟩

theorem Holds.lines_le (h : Holds 68 s taken ended last) :
    ∀ line ∈ lines (joined ended last), line.length ≤ 69 := by
  have hcount := h.count
  have hbounded := h.bounded
  rw [lines_joined (fun line hline => (h.short line hline).1) h.open_line]
  refine List.forall_mem_append.mpr ⟨fun line hline => (h.short line hline).2, ?_⟩
  exact List.forall_mem_singleton.mpr (by omega)

end

theorem holds_start (message : Message) : Holds 68 ⟨message, 0, -1, 0⟩ [] [] [] where
  length := message.2
  written := List.nil_prefix
  e := rfl
  broken := .nil
  short := fun _ hmem => absurd hmem List.not_mem_nil
  open_line := List.not_mem_nil
  count := by simp
  bounded := by simp
  c := .inl rfl

/-- The message comes back as far as it fits, in lines that do, and nothing else is written. -/
theorem exists_splitHudMessage (message : Message) (src : CString) :
    ∃ result, splitHudMessage message src = some result ∧ result.length = 512 ∧
      (CString.ofMemory result).size ≤ 511 ∧
      (∃ shown, shown <+: src.bytes ∧ Broken shown (CString.ofMemory result).bytes) ∧
      ∀ line ∈ lines (CString.ofMemory result).bytes, line.length ≤ 69 := by
  obtain ⟨s, shown, ended, last, hloop, hshown, hholds, hle⟩ :=
    (holds_start message).loop (Nat.zero_le _) src.bytes
  rw [List.nil_append] at hshown
  have hnul : 0 ∉ joined ended last :=
    hholds.broken.noNul fun hmem => src.noNul (hshown.subset hmem)
  have hlength := hholds.length
  have hend := hholds.e
  obtain ⟨rest, hwrite, hsame⟩ := Block.exists_write_behind hholds.written 0 (by omega)
  have hbytes : (CString.ofMemory (joined ended last ++ 0 :: rest)).bytes = joined ended last :=
    takeWhile_terminated hnul rest
  refine ⟨_, ?_, hsame.trans hlength, ?_, ⟨shown, hshown, ?_⟩, ?_⟩
  · rw [splitHudMessage, hloop, Option.bind_some, hend, hwrite]
  · rw [CString.size, hbytes]
    omega
  · rw [hbytes]
    exact hholds.broken
  · rw [hbytes]
    exact hholds.lines_le

end AmxModC.Util.HudMessage
