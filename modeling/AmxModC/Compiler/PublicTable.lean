import AmxModC.Compiler.Publics

namespace AmxModC.Compiler.Publics

open Foundation

/-! What a write changes. -/

namespace File

variable {file : File} {buffer : List Byte} {i : Nat}

theorem length_front (file : File) :
    (file.bytes.take file.position ++
      List.replicate (file.position - file.bytes.length) 0).length = file.position := by
  rw [List.length_append, List.length_take, List.length_replicate]
  omega

theorem getElem?_writebin_inside (hi : i < buffer.length) :
    (file.writebin buffer).bytes[file.position + i]? = buffer[i]? := by
  have hfront := length_front file
  rw [writebin, List.append_assoc, List.getElem?_append_right (by omega), hfront,
    Nat.add_sub_cancel_left, List.getElem?_append_left hi]

theorem getElem?_writebin_outside
    (hi : i < file.position ∧ i < file.bytes.length ∨ file.position + buffer.length ≤ i) :
    (file.writebin buffer).bytes[i]? = file.bytes[i]? := by
  have hfront := length_front file
  rcases hi with ⟨hposition, hlength⟩ | hbehind
  · rw [writebin, List.append_assoc, List.getElem?_append_left (by omega),
      List.getElem?_append_left (by rw [List.length_take]; omega),
      List.getElem?_take_of_lt hposition]
  · rw [writebin, List.getElem?_append_right (by rw [List.length_append]; omega),
      List.length_append, hfront, List.getElem?_drop]
    congr 1
    omega

theorem length_le_writebin : file.bytes.length ≤ (file.writebin buffer).bytes.length := by
  rw [writebin, List.length_append, List.length_append, length_front, List.length_drop]
  omega

theorem position_le_writebin :
    (file.writebin buffer).position ≤ (file.writebin buffer).bytes.length := by
  have hfront := length_front file
  rw [writebin, List.length_append, List.length_append, hfront]
  exact Nat.le_add_right _ _

@[simp] theorem position_writebin :
    (file.writebin buffer).position = file.position + buffer.length := rfl

@[simp] theorem bytes_resetbin (file : File) (offset : Int) :
    (file.resetbin offset).bytes = file.bytes := by
  unfold resetbin
  split <;> rfl

/-! A write at a place of the file. -/

theorem position_resetbin_natCast (file : File) (offset : Nat) :
    (file.resetbin offset).position = offset := by
  rw [resetbin, if_pos (Int.natCast_nonneg _), Int.toNat_natCast]

theorem getElem?_rewrite_inside (file : File) (offset : Nat) (hi : i < buffer.length) :
    (file.rewrite offset buffer).bytes[offset + i]? = buffer[i]? := by
  have hbytes : ((file.resetbin offset).writebin buffer).bytes[
      (file.resetbin offset).position + i]? = buffer[i]? := getElem?_writebin_inside hi
  rw [position_resetbin_natCast] at hbytes
  exact hbytes

theorem getElem?_rewrite_outside {offset : Nat}
    (hi : i < offset ∧ i < file.bytes.length ∨ offset + buffer.length ≤ i) :
    (file.rewrite offset buffer).bytes[i]? = file.bytes[i]? := by
  rw [rewrite, getElem?_writebin_outside, bytes_resetbin]
  rw [position_resetbin_natCast, bytes_resetbin]
  exact hi

theorem length_le_rewrite (offset : Nat) :
    file.bytes.length ≤ (file.rewrite offset buffer).bytes.length := by
  rw [rewrite, ← bytes_resetbin file offset]
  exact length_le_writebin

theorem position_rewrite (file : File) (offset : Nat) (buffer : List Byte) :
    (file.rewrite offset buffer).position = offset + buffer.length := by
  rw [rewrite, position_writebin, position_resetbin_natCast]

theorem position_resetbin {offset : Int} (h : 0 ≤ offset) :
    (file.resetbin offset).position = offset.toNat := by
  rw [resetbin, if_pos h]

end File

/-! What one turn of the loop for a table changes. -/

namespace Writer

variable {table i : Nat} {w : Writer} {entry : Entry}

def target (table : Nat) (w : Writer) : Int := table + w.count.toInt * 8

def func (w : Writer) (entry : Entry) : List Byte :=
  littleEndian 4 entry.address.toNat ++ littleEndian 4 w.nameofs

theorem length_func : (func w entry).length = 8 := by
  rw [func, List.length_append, length_littleEndian, length_littleEndian]

def middle (table : Nat) (w : Writer) (entry : Entry) : File :=
  (w.file.resetbin (target table w)).writebin (func w entry)

theorem file_writeEntry : (writeEntry table w entry).file =
    (middle table w entry).rewrite w.nameofs (entry.name.1.bytes ++ [0]) := rfl

theorem position_writeEntry :
    (writeEntry table w entry).file.position = (writeEntry table w entry).nameofs := by
  rw [file_writeEntry, File.position_rewrite, List.length_append, List.length_singleton]
  rfl

theorem length_le_middle : w.file.bytes.length ≤ (middle table w entry).bytes.length := by
  rw [middle, ← File.bytes_resetbin w.file (target table w)]
  exact File.length_le_writebin

theorem nameofs_le_writeEntry :
    (writeEntry table w entry).nameofs ≤ (writeEntry table w entry).file.bytes.length := by
  rw [← position_writeEntry, file_writeEntry]
  exact File.position_le_writebin

theorem getElem?_writeEntry (hi : i < w.nameofs) (hlength : i < w.file.bytes.length) :
    (writeEntry table w entry).file.bytes[i]? = (middle table w entry).bytes[i]? :=
  File.getElem?_rewrite_outside (.inl ⟨hi, hlength.trans_le length_le_middle⟩)

theorem getElem?_writeEntry_outside (hi : i < w.nameofs) (hlength : i < w.file.bytes.length)
    (hposition : target table w < 0 → w.file.position = w.nameofs)
    (houtside : (i : Int) < target table w ∨ target table w + 8 ≤ i) :
    (writeEntry table w entry).file.bytes[i]? = w.file.bytes[i]? := by
  rw [getElem?_writeEntry hi hlength, middle, File.getElem?_writebin_outside,
    File.bytes_resetbin]
  rw [File.bytes_resetbin, length_func]
  rcases lt_or_ge (target table w) 0 with hneg | hpos
  · have hfail : w.file.resetbin (target table w) = w.file := if_neg (not_le.mpr hneg)
    rw [hfail, hposition hneg]
    exact .inl ⟨hi, hlength⟩
  · rw [File.position_resetbin hpos]
    omega

theorem getElem?_writeEntry_inside (entry : Entry) {b : Nat} (hpos : 0 ≤ target table w)
    (hb : b < 8) (hnameofs : target table w + 8 ≤ w.nameofs)
    (hlength : target table w + 8 ≤ w.file.bytes.length) :
    (writeEntry table w entry).file.bytes[(target table w).toNat + b]? =
      (func w entry)[b]? := by
  rw [getElem?_writeEntry (by omega) (by omega), middle, ← File.position_resetbin hpos]
  exact File.getElem?_writebin_inside (length_func ▸ hb)

theorem stringAt_writeEntry :
    StringAt (writeEntry table w entry).file.bytes w.nameofs entry.name.1.bytes := by
  intro i hi
  refine File.getElem?_rewrite_inside _ _ ?_
  rw [List.length_append, List.length_singleton]
  omega

end Writer

/-! The loop for a table. -/

/-- What `count` makes of the number of an entry. -/
def wrapped (k : Nat) : Int := (BitVec.ofNat 16 k).toInt

theorem wrapped_eq (k : Nat) :
    wrapped k = if k % 65536 < 32768 then ((k % 65536 : Nat) : Int)
      else ((k % 65536 : Nat) : Int) - 65536 := by
  rw [wrapped, BitVec.toInt_eq_toNat_cond, BitVec.toNat_ofNat]
  norm_num
  split <;> split <;> omega

theorem wrapped_of_lt {k : Nat} (hk : k < 32768) : wrapped k = k := by
  rw [wrapped_eq, if_pos (by omega)]
  omega

theorem wrapped_le (k : Nat) : wrapped k ≤ k := by
  rw [wrapped_eq]
  split <;> omega

theorem wrapped_lt (k : Nat) : wrapped k < 32768 := by
  rw [wrapped_eq]
  split <;> omega

def place (table k : Nat) : Int := table + wrapped k * 8

def offset (start : Nat) (entries : List Entry) (k : Nat) : Nat :=
  start + namesSize ((entries.take k).map Entry.name)

section

variable {table start k : Nat} {entries : List Entry} {w w' : Writer}

theorem offset_zero : offset start entries 0 = start := rfl

theorem offset_succ (hk : k < entries.length) :
    offset start entries (k + 1) = offset start entries k + (entries[k].name.1.size + 1) := by
  rw [offset, offset, List.take_succ_eq_append_getElem hk, namesSize, namesSize]
  simp only [List.map_append, List.sum_append, List.map_cons, List.map_nil, List.sum_cons,
    List.sum_nil]
  omega

theorem offset_le_offset (start : Nat) {j : Nat} (hle : j ≤ k) (hk : k ≤ entries.length) :
    offset start entries j ≤ offset start entries k := by
  induction k with
  | zero => rw [Nat.le_zero.mp hle]
  | succ k ih =>
      rcases Nat.lt_succ_iff_lt_or_eq.mp (Nat.lt_succ_of_le hle) with hlt | rfl
      · rw [offset_succ hk]
        have := ih (Nat.le_of_lt_succ hlt) (Nat.le_of_succ_le hk)
        omega
      · exact le_rfl

def stub (start : Nat) (entries : List Entry) (k : Nat) (hk : k < entries.length) : List Byte :=
  littleEndian 4 entries[k].address.toNat ++ littleEndian 4 (offset start entries k)

/-- After `j` turns of the loop: the names of the entries are there, at the place of an entry is
one that was put there, and what was in front of the names is as it was elsewhere. -/
structure Written (table : Nat) (entries : List Entry) (w : Writer) (j : Nat) (w' : Writer) :
    Prop where
  count : w'.count = BitVec.ofNat 16 j
  nameofs : w'.nameofs = offset w.nameofs entries j
  position : j ≠ 0 → w'.file.position = w'.nameofs
  length : w'.nameofs ≤ w'.file.bytes.length
  names : ∀ k (hk : k < entries.length), k < j →
    StringAt w'.file.bytes (offset w.nameofs entries k) entries[k].name.1.bytes
  kept : ∀ i < w.nameofs, (∀ k < j, (i : Int) < place table k ∨ place table k + 8 ≤ i) →
    w'.file.bytes[i]? = w.file.bytes[i]?
  put : ∀ p : Nat, p % 8 = table % 8 → (∃ k < j, place table k = p) →
    ∃ k, ∃ hk : k < entries.length, place table k = p ∧
      ∀ b < 8, w'.file.bytes[p + b]? = (stub w.nameofs entries k hk)[b]?

theorem Written.turn {j : Nat} (h : Written table entries w j w')
    (hroom : table + entries.length * 8 ≤ w.nameofs) (hj : j < entries.length) :
    Written table entries w (j + 1) (writeEntry table w' entries[j]) := by
  have htarget : Writer.target table w' = place table j := by
    rw [Writer.target, h.count]
    rfl
  have hplace : place table j + 8 ≤ w.nameofs := by
    have := wrapped_le j
    rw [place]
    omega
  have hnameofs : w.nameofs ≤ w'.nameofs :=
    h.nameofs ▸ offset_le_offset w.nameofs (Nat.zero_le j) hj.le
  have hposition : Writer.target table w' < 0 → w'.file.position = w'.nameofs := by
    intro hneg
    refine h.position ?_
    rintro rfl
    rw [htarget, place, wrapped_of_lt (by decide)] at hneg
    omega
  have houtside : ∀ i < w'.nameofs, (i : Int) < place table j ∨ place table j + 8 ≤ i →
      (writeEntry table w' entries[j]).file.bytes[i]? = w'.file.bytes[i]? := by
    intro i hi hnot
    exact Writer.getElem?_writeEntry_outside hi (lt_of_lt_of_le hi h.length) hposition
      (htarget.symm ▸ hnot)
  constructor
  · change w'.count + 1 = _
    rw [h.count, BitVec.ofNat_add]
    rfl
  · change w'.nameofs + _ = _
    rw [h.nameofs, offset_succ hj]
  · exact fun _ => Writer.position_writeEntry
  · exact Writer.nameofs_le_writeEntry
  · intro k hk hlt
    rcases Nat.lt_succ_iff_lt_or_eq.mp hlt with hbefore | rfl
    · refine (h.names k hk hbefore).of_agree fun i hlow hhigh => houtside i ?_ (.inr ?_)
      · have hnext := offset_le_offset w.nameofs hbefore hj.le
        rw [offset_succ hk] at hnext
        rw [h.nameofs]
        change i ≤ _ + entries[k].name.1.size at hhigh
        omega
      · have := offset_le_offset w.nameofs (Nat.zero_le k) hk.le
        rw [offset_zero] at this
        omega
    · rw [← h.nameofs]
      exact Writer.stringAt_writeEntry
  · intro i hi hnot
    rw [houtside i (hi.trans_le hnameofs) (hnot j (Nat.lt_succ_self j))]
    exact h.kept i hi fun k hk => hnot k (Nat.lt_succ_of_lt hk)
  · intro p haligned hput
    by_cases hhere : place table j = p
    · refine ⟨j, hj, hhere, fun b hb => ?_⟩
      have hpos : 0 ≤ Writer.target table w' := by
        rw [htarget, hhere]
        exact Int.natCast_nonneg p
      have hbytes := Writer.getElem?_writeEntry_inside entries[j] hpos hb
        (by rw [htarget]; omega) (by rw [htarget]; have := h.length; omega)
      rw [htarget, hhere, Int.toNat_natCast] at hbytes
      rw [hbytes, Writer.func, h.nameofs]
      rfl
    · obtain ⟨k, hk, hkp⟩ := hput
      have hbefore : k < j :=
        lt_of_le_of_ne (Nat.le_of_lt_succ hk) fun heq => hhere (heq ▸ hkp)
      obtain ⟨k', hk', hplace', hbytes⟩ := h.put p haligned ⟨k, hbefore, hkp⟩
      refine ⟨k', hk', hplace', fun b hb => ?_⟩
      have hapart : (p : Int) + 8 ≤ place table j ∨ place table j + 8 ≤ p := by
        rw [place] at hhere ⊢
        omega
      have hend : p + 8 ≤ w.nameofs := by
        have := wrapped_le k'
        rw [place] at hplace'
        omega
      rw [houtside (p + b) (by omega) (by omega), hbytes b hb]

theorem written_writeTable (table : Nat) (entries : List Entry) (w : Writer)
    (hroom : table + entries.length * 8 ≤ w.nameofs)
    (hlength : w.nameofs ≤ w.file.bytes.length) :
    Written table entries w entries.length (writeTable table entries w) := by
  refine foldl_invariant (P := Written table entries w) ?_ fun j hj w' h => h.turn hroom hj
  exact
    { count := rfl
      nameofs := rfl
      position := fun h => absurd rfl h
      length := hlength
      names := fun _ _ h => absurd h (Nat.not_lt_zero _)
      kept := fun _ _ _ => rfl
      put := fun _ _ h => absurd h.choose_spec.1 (Nat.not_lt_zero _) }

end

/-! The tables behind that of the public functions. -/

/-- An entry of one of the tables goes to place `k`; the first of them starts at place `first`,
and these are the numbers of their entries. -/
def Reaches (k : Nat) : Nat → List Nat → Prop
  | _, [] => False
  | first, count :: rest => (∃ j < count, first + wrapped j = k) ∨ Reaches k (first + count) rest

def Foreign (bytes : List Byte) (p start : Nat) : Prop :=
  ∃ ofs, start ≤ ofs ∧ ofs < 2 ^ 32 ∧ ∀ b < 4, bytes[p + 4 + b]? = (littleEndian 4 ofs)[b]?

section

variable {base first : Nat} {tables : List (List Entry)} {entries : List Entry} {w : Writer}

theorem littleEndian_append_high {m n b : Nat} :
    (littleEndian 4 m ++ littleEndian 4 n)[4 + b]? = (littleEndian 4 n)[b]? := by
  have hlength : (littleEndian 4 m).length = 4 := length_littleEndian _ _
  rw [List.getElem?_append_right (by omega), hlength, Nat.add_sub_cancel_left]

structure AllWritten (base first : Nat) (counts : List Nat) (w w' : Writer) : Prop where
  nameofs : w.nameofs ≤ w'.nameofs
  length : w'.nameofs ≤ w'.file.bytes.length
  behind : ∀ i, base + (first + counts.sum) * 8 ≤ i → i < w.nameofs →
    w'.file.bytes[i]? = w.file.bytes[i]?
  apart : ∀ k < first + counts.sum, ¬ Reaches k first counts →
    ∀ b < 8, w'.file.bytes[base + k * 8 + b]? = w.file.bytes[base + k * 8 + b]?
  reached : ∀ k, w'.nameofs < 2 ^ 32 → Reaches k first counts →
    Foreign w'.file.bytes (base + k * 8) w.nameofs

theorem allWritten_writeTables
    (hroom : base + (first + (tables.map List.length).sum) * 8 ≤ w.nameofs)
    (hlength : w.nameofs ≤ w.file.bytes.length) :
    AllWritten base first (tables.map List.length) w
      (writeTables (base + first * 8) tables w) := by
  induction tables generalizing first w with
  | nil =>
      exact
        { nameofs := le_rfl
          length := hlength
          behind := fun _ _ _ => rfl
          apart := fun _ _ _ _ _ => rfl
          reached := fun _ _ h => h.elim }
  | cons entries rest ih =>
      rw [List.map_cons, List.sum_cons] at hroom
      have hfirst := written_writeTable (base + first * 8) entries w (by omega) hlength
      have hnames : w.nameofs ≤ (writeTable (base + first * 8) entries w).nameofs :=
        hfirst.nameofs ▸ offset_le_offset w.nameofs (Nat.zero_le _) le_rfl
      have hnext : base + first * 8 + entries.length * 8 = base + (first + entries.length) * 8 := by
        omega
      have hplaces : ∀ j < entries.length,
          place (base + first * 8) j + 8 ≤ base + (first + entries.length) * 8 := by
        intro j hj
        have := wrapped_le j
        rw [place]
        omega
      have hrest : AllWritten base (first + entries.length) (rest.map List.length)
          (writeTable (base + first * 8) entries w) _ := ih (by omega) hfirst.length
      rw [writeTables, hnext]
      refine ⟨hnames.trans hrest.nameofs, hrest.length, ?_, ?_, ?_⟩
      · intro i hi hlt
        rw [List.map_cons, List.sum_cons] at hi
        rw [hrest.behind i (by omega) (by omega)]
        exact hfirst.kept i hlt fun j hj => .inr (by have := hplaces j hj; omega)
      · intro k hk hnot b hb
        rw [List.map_cons, List.sum_cons] at hk
        rw [hrest.apart k (by omega) (fun h => hnot (.inr h)) b hb]
        refine hfirst.kept _ (by omega) fun j hj => ?_
        have hne : first + wrapped j ≠ k := fun heq => hnot (.inl ⟨j, hj, heq⟩)
        rw [place]
        omega
      · intro k hlt hreaches
        by_cases hlater : Reaches k (first + entries.length) (rest.map List.length)
        · obtain ⟨ofs, hle, hofs, hbytes⟩ := hrest.reached k hlt hlater
          exact ⟨ofs, hnames.trans hle, hofs, hbytes⟩
        · obtain ⟨j, hj, heq⟩ := hreaches.resolve_right hlater
          have hput : place (base + first * 8) j = (base + k * 8 : Nat) := by
            rw [place]
            omega
          obtain ⟨j', hj', hplace, hbytes⟩ := hfirst.put (base + k * 8) (by omega) ⟨j, hj, hput⟩
          have hk : k < first + entries.length := by
            have := hplaces j hj
            omega
          have hofs : offset w.nameofs entries j' ≤
              (writeTable (base + first * 8) entries w).nameofs :=
            hfirst.nameofs ▸ offset_le_offset w.nameofs hj'.le le_rfl
          refine ⟨offset w.nameofs entries j', offset_le_offset w.nameofs (Nat.zero_le j') hj'.le,
            (hofs.trans hrest.nameofs).trans_lt hlt, fun b hb => ?_⟩
          rw [Nat.add_assoc, hrest.apart k (by omega) hlater (4 + b) (by omega),
            hbytes (4 + b) (by omega), stub, littleEndian_append_high]

end

end AmxModC.Compiler.Publics
