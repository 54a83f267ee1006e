import AmxModC.Foundation.Codec

namespace AmxModC.Foundation

namespace Reader

variable {α β : Type}

/-- The reader needs `width` bytes, whatever they are, and it consumes no more of them. -/
def Takes (reader : Reader α) (width : Nat) : Prop :=
  ∀ file, (file.length < width ∧ reader file = none) ∨
    width ≤ file.length ∧ ∃ a, reader file = some (a, file.drop width)

theorem takes_pure (a : α) : Takes (pure a) 0 :=
  fun _ => Or.inr ⟨Nat.zero_le _, a, rfl⟩

theorem takes_take (width : Nat) : Takes (take width) width := by
  intro file
  rcases Nat.lt_or_ge file.length width with hlt | hge
  · exact Or.inl ⟨hlt, if_neg (Nat.not_le.mpr hlt)⟩
  · exact Or.inr ⟨hge, file.take width, if_pos hge⟩

theorem Takes.bind
    {reader : Reader α}
    {next : α → Reader β}
    {first second : Nat}
    (hfirst : Takes reader first)
    (hsecond : ∀ a, Takes (next a) second) :
    Takes (reader >>= next) (first + second) := by
  intro file
  change (_ ∧ (reader file).bind (fun p => next p.1 p.2) = none) ∨
    _ ∧ ∃ b, (reader file).bind (fun p => next p.1 p.2) = _
  rcases hfirst file with ⟨hlt, hnone⟩ | ⟨hge, a, hsome⟩
  · refine Or.inl ⟨by omega, ?_⟩
    rw [hnone]
    rfl
  · rw [hsome]
    have hdrop : (file.drop first).length = file.length - first := List.length_drop
    rcases hsecond a (file.drop first) with ⟨hlt, hnone⟩ | ⟨hrest, b, hsome⟩
    · exact Or.inl ⟨by omega, hnone⟩
    · refine Or.inr ⟨by omega, b, ?_⟩
      rw [← List.drop_drop]
      exact hsome

theorem Takes.map
    {reader : Reader α}
    {width : Nat}
    (h : Takes reader width)
    (f : α → β) :
    Takes (f <$> reader) width := by
  intro file
  change (_ ∧ (reader file).bind (fun p => some (f p.1, p.2)) = none) ∨
    _ ∧ ∃ b, (reader file).bind (fun p => some (f p.1, p.2)) = _
  rcases h file with ⟨hlt, hnone⟩ | ⟨hge, a, hsome⟩
  · refine Or.inl ⟨hlt, ?_⟩
    rw [hnone]
    rfl
  · refine Or.inr ⟨hge, f a, ?_⟩
    rw [hsome]
    rfl

theorem Takes.bind_pure
    {reader : Reader α}
    {width : Nat}
    (h : Takes reader width)
    (f : α → β) :
    Takes (reader >>= fun a => pure (f a)) width := by
  rw [bind_pure_comp]
  exact h.map f

theorem takes_number (width : Nat) : Takes (number width) width :=
  (takes_take width).bind_pure ofLittleEndian

theorem Takes.length_le
    {reader : Reader α}
    {width : Nat}
    (h : Takes reader width)
    {file rest : List Byte}
    {a : α}
    (hread : reader file = some (a, rest)) :
    rest.length + width ≤ file.length := by
  rcases h file with ⟨-, hnone⟩ | ⟨hle, a', hsome⟩
  · rw [hread] at hnone
    cases hnone
  · obtain ⟨-, rfl⟩ := Prod.mk.inj (Option.some.inj (hread.symm.trans hsome))
    rw [List.length_drop]
    omega

end Reader

/-! A file that is read from any of its positions. -/

structure FileStream where
  content : List Byte
  pos : Nat
deriving DecidableEq, Repr

namespace FileStream

variable {α β : Type}

def ahead (f : FileStream) : List Byte := f.content.drop f.pos

def advance (f : FileStream) (count : Nat) : FileStream := { f with pos := f.pos + count }

/-- Runs a reader at the position; `none` is the end of the file before the reader had what it
asked for. -/
def read (reader : Reader α) (f : FileStream) : Option (α × FileStream) :=
  (reader f.ahead).map fun result => (result.1, f.advance (f.ahead.length - result.2.length))

def seek (f : FileStream) (offset : Int) : FileStream :=
  if offset < 0 then f else { f with pos := offset.toNat }

@[simp] theorem content_seek (f : FileStream) (offset : Int) :
    (f.seek offset).content = f.content := by
  unfold seek
  split <;> rfl

@[simp] theorem seek_natCast (f : FileStream) (n : Nat) : f.seek n = { f with pos := n } := by
  rw [seek, if_neg (Int.not_lt.mpr (Int.natCast_nonneg n)), Int.toNat_natCast]

theorem length_ahead (f : FileStream) : f.ahead.length = f.content.length - f.pos :=
  List.length_drop

theorem ahead_advance (f : FileStream) (count : Nat) :
    (f.advance count).ahead = f.ahead.drop count := by
  rw [ahead, ahead, List.drop_drop]
  rfl

theorem read_of_reads
    {f : FileStream}
    {reader : Reader α}
    {bytes rest : List Byte}
    {a : α}
    (h : reader.Reads bytes a)
    (hahead : f.ahead = bytes ++ rest) :
    f.read reader = some (a, f.advance bytes.length) := by
  rw [read, hahead, h rest, Option.map_some, List.length_append, Nat.add_sub_cancel]

theorem read_of_takes
    {reader : Reader α}
    {width : Nat}
    (h : reader.Takes width)
    (f : FileStream) :
    f.read reader = (reader f.ahead).map fun result => (result.1, f.advance width) := by
  rw [read]
  rcases h f.ahead with ⟨-, hnone⟩ | ⟨hle, a, hsome⟩
  · rw [hnone]
    rfl
  · rw [hsome, Option.map_some, Option.map_some, List.length_drop, Nat.sub_sub_self hle]

theorem read_pure (a : α) (f : FileStream) : f.read (pure a) = some (a, f) := by
  change some (a, f.advance (f.ahead.length - f.ahead.length)) = _
  rw [Nat.sub_self]
  rfl

theorem read_bind
    {reader : Reader α}
    {next : α → Reader β}
    {first second : Nat}
    (hfirst : reader.Takes first)
    (hsecond : ∀ a, (next a).Takes second)
    (f : FileStream) :
    f.read (reader >>= next) = (f.read reader).bind fun result => result.2.read (next result.1) := by
  rw [read_of_takes (hfirst.bind hsecond), read_of_takes hfirst]
  change ((reader f.ahead).bind fun p => next p.1 p.2).map _ = _
  rcases hfirst f.ahead with ⟨-, hnone⟩ | ⟨-, a, hsome⟩
  · rw [hnone]
    rfl
  · simp only [hsome, Option.bind_some, Option.map_some]
    rw [read_of_takes (hsecond a), ahead_advance]
    simp only [advance, Nat.add_assoc]

theorem read_number
    (g : Nat → α)
    (width : Nat)
    (f : FileStream) :
    f.read (g <$> Reader.number width) =
      if width ≤ f.content.length - f.pos then
        some (g (ofLittleEndian (f.ahead.take width)), f.advance width)
      else none := by
  rw [read_of_takes ((Reader.takes_number width).map g)]
  change (((Reader.take width f.ahead).bind fun p => some (ofLittleEndian p.1, p.2)).bind
    fun p => some (g p.1, p.2)).map _ = _
  rw [Reader.take, length_ahead]
  split <;> rfl

end FileStream

end AmxModC.Foundation
