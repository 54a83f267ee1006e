import AmxModC.Compiler.PublicTable

namespace AmxModC.Compiler.Publics

open Foundation

/-! The order of the symbol table. -/

/-- What `strcmp` compares. -/
def Symbol.key (sym : Symbol) : List Nat := sym.name.1.bytes.map BitVec.toNat

def Sorted (glbtab : List Symbol) : Prop := glbtab.Pairwise fun a b => a.key ≤ b.key

section

variable {glbtab glbtab' : List Symbol} {entry sym : Symbol}

theorem addSymbol_cons (entry next : Symbol) (rest : List Symbol) :
    addSymbol entry (next :: rest) =
      if next.key < entry.key then next :: addSymbol entry rest else entry :: next :: rest := by
  rw [addSymbol]
  simp only [strcmp_pos_iff]
  rfl

theorem mem_addSymbol (h : sym ∈ addSymbol entry glbtab) : sym = entry ∨ sym ∈ glbtab := by
  induction glbtab with
  | nil => exact .inl (List.mem_singleton.mp h)
  | cons next rest ih =>
      rw [addSymbol_cons] at h
      split at h
      next =>
        rcases List.mem_cons.mp h with rfl | hrest
        · exact .inr List.mem_cons_self
        · exact (ih hrest).imp_right (List.mem_cons_of_mem _)
      next => exact List.mem_cons.mp h

theorem Sorted.addSymbol (h : Sorted glbtab) (entry : Symbol) :
    Sorted (addSymbol entry glbtab) := by
  induction glbtab with
  | nil => exact List.pairwise_singleton _ _
  | cons next rest ih =>
      obtain ⟨hnext, hrest⟩ := List.pairwise_cons.mp h
      rw [addSymbol_cons]
      split
      next hlt =>
        refine List.pairwise_cons.mpr ⟨fun sym hsym => ?_, ih hrest⟩
        rcases mem_addSymbol hsym with rfl | hmem
        · exact hlt.le
        · exact hnext sym hmem
      next hle =>
        refine List.pairwise_cons.mpr ⟨fun sym hsym => ?_, h⟩
        rcases List.mem_cons.mp hsym with rfl | hmem
        · exact not_lt.mp hle
        · exact (not_lt.mp hle).trans (hnext sym hmem)

theorem Sorted.change (h : Sorted glbtab) {c : Change} (hchange : change glbtab c = some glbtab') :
    Sorted glbtab' := by
  cases c with
  | addSymbol entry =>
      cases hchange
      exact h.addSymbol entry
  | deleteSymbol index =>
      simp only [Publics.change] at hchange
      split at hchange
      next =>
        cases hchange
        exact h.sublist (List.eraseIdx_sublist _ _)
      next => cases hchange

theorem sorted_of_run {changes : List Change} (h : run change [] changes = some glbtab) :
    Sorted glbtab := by
  have hmeets : Meets Publics.change (fun _ _ => True) [] changes :=
    meets_of_forall fun _ _ => trivial
  exact run_invariant (fun hinv _ => hinv.change) List.Pairwise.nil hmeets h

theorem key_injective {a b : Symbol} : a.key = b.key ↔ a.name = b.name := by
  rw [Symbol.key, Symbol.key, map_toNat_inj, ← CString.ext_iff]
  exact Subtype.ext_iff.symm

theorem pairwise_publics (h : Sorted glbtab) (hnames : (glbtab.map Symbol.name).Nodup) :
    (publics glbtab).Pairwise fun a b => a.key < b.key := by
  have hdistinct : glbtab.Pairwise fun a b => a.name ≠ b.name := List.pairwise_map.mp hnames
  refine List.Pairwise.filter _ ((h.and hdistinct).imp fun hab => ?_)
  exact lt_of_le_of_ne hab.1 fun heq => hab.2 (key_injective.mp heq)

end

/-! Numbers in memory. -/

section

variable {image : List Byte} {start width n : Nat}

theorem number_of_bytes (hwidth : 0 < width) (hn : n < 256 ^ width)
    (h : ∀ b < width, image[start + b]? = (littleEndian width n)[b]?) :
    number image start width = some n := by
  have hlength : start + (width - 1) < image.length := by
    have hlast := h (width - 1) (by omega)
    have hin : width - 1 < (littleEndian width n).length := by
      rw [length_littleEndian]
      omega
    rw [List.getElem?_eq_getElem hin] at hlast
    exact (List.getElem?_eq_some_iff.mp hlast).1
  have hread : Block.read image start width = some (littleEndian width n) := by
    refine Block.read_eq_some.mpr ⟨by omega, List.ext_getElem? fun b => ?_⟩
    rw [List.getElem?_take, List.getElem?_drop]
    split
    next hb => exact h b hb
    next hb => rw [List.getElem?_eq_none (by rw [length_littleEndian]; omega)]
  rw [number, hread, Option.map_some, ofLittleEndian_littleEndian, Nat.mod_eq_of_lt hn]

end

/-! The program that `assemble` leaves. -/

section

variable (settings : Settings) (glbtab : List Symbol)

def counts : List Nat :=
  [(glbtab.filter Symbol.isNative).length, settings.libraries.length,
    (pubvarEntries glbtab).length, settings.tags.length]

def namesStart : Nat := (header settings glbtab).nametable + 2

end

section

variable {settings : Settings} {glbtab : List Symbol} {natives : List Symbol} {image : List Byte}
  {i k : Nat}

theorem length_nativelist (h : nativelist glbtab = some natives) :
    natives.length = (glbtab.filter Symbol.isNative).length := by
  simp only [nativelist] at h
  split at h
  next => rw [length_of_mapM h, List.length_range]
  next => cases h

theorem nametable_eq (settings : Settings) (glbtab : List Symbol) :
    (header settings glbtab).nametable =
      headerSize + ((publics glbtab).length + (counts settings glbtab).sum) * 8 := by
  simp only [header, counts, publicEntries, List.length_map, List.sum_cons, List.sum_nil]
  omega

theorem cod_eq (settings : Settings) (glbtab : List Symbol) :
    (header settings glbtab).cod = (header settings glbtab).nametable +
      nametablesize settings glbtab + padding settings glbtab := rfl

theorem two_le_nametablesize (settings : Settings) (glbtab : List Symbol) :
    2 ≤ nametablesize settings glbtab := by
  simp only [nametablesize]
  omega

theorem length_headerBytes (hdr : Header) : hdr.bytes.length = headerSize := by
  rw [Header.bytes, length_fieldBytes]
  simp [Header.fields]

theorem getElem?_beforeTables (hi : headerSize ≤ i) (hcod : i < (header settings glbtab).cod) :
    (beforeTables settings glbtab).file.bytes[i]? = some 0 := by
  obtain ⟨j, rfl⟩ := Nat.exists_eq_add_of_le hi
  have hzeros : j < (header settings glbtab).cod - headerSize := by omega
  rw [beforeTables, File.getElem?_rewrite_inside _ _ (by rw [List.length_replicate]; exact hzeros)]
  exact List.getElem?_replicate_of_lt hzeros

theorem nameofs_le_beforeTables : (beforeTables settings glbtab).nameofs ≤
    (beforeTables settings glbtab).file.bytes.length := by
  have hsize := two_le_nametablesize settings glbtab
  have hcod := cod_eq settings glbtab
  have hname := nametable_eq settings glbtab
  have hlast : (beforeTables settings glbtab).file.bytes[(header settings glbtab).nametable + 1]? =
      some 0 := getElem?_beforeTables (by omega) (by omega)
  exact (List.getElem?_eq_some_iff.mp hlast).1

theorem of_assemble (h : assemble settings glbtab = some image) :
    ∃ natives, nativelist glbtab = some natives ∧ (header settings glbtab).cod < 2 ^ 31 ∧
      (writeHeader settings glbtab natives).nameofs =
        (header settings glbtab).nametable + nametablesize settings glbtab ∧
      image = (finish settings glbtab (writeHeader settings glbtab natives).file).bytes := by
  simp only [assemble, Option.bind_eq_bind, Option.bind_eq_some_iff] at h
  obtain ⟨natives, hnatives, h⟩ := h
  split at h
  next hassert =>
    exact ⟨natives, hnatives, hassert.2.2.1, hassert.2.2.2, (Option.some.inj h).symm⟩
  next => cases h

theorem getElem?_finish {file : File} (hi : headerSize ≤ i) (hlength : i < file.bytes.length)
    (hcod : i < (header settings glbtab).cod)
    (hname : i < (header settings glbtab).nametable ∨ (header settings glbtab).nametable + 2 ≤ i) :
    (finish settings glbtab file).bytes[i]? = file.bytes[i]? := by
  have hfirst : i < (file.rewrite (header settings glbtab).nametable
      (littleEndian 2 nameMax)).bytes.length := hlength.trans_le (File.length_le_rewrite _)
  rw [finish, File.getElem?_rewrite_outside, File.getElem?_rewrite_outside,
    File.getElem?_rewrite_outside]
  · rw [length_littleEndian]
    omega
  · exact .inl ⟨hcod, hfirst⟩
  · rw [length_headerBytes]
    omega

theorem getElem?_finish_header (file : File) (hi : i < headerSize) :
    (finish settings glbtab file).bytes[i]? = (finalHeader settings glbtab).bytes[i]? := by
  have hlength : i < (finalHeader settings glbtab).bytes.length := by
    rw [length_headerBytes]
    exact hi
  have hbytes := File.getElem?_rewrite_inside
    ((file.rewrite (header settings glbtab).nametable (littleEndian 2 nameMax)).rewrite
      (header settings glbtab).cod settings.segments) 0 hlength
  rw [Nat.zero_add] at hbytes
  exact hbytes

end

/-- What the program that `assemble` leaves has of the public functions. -/
structure Image (settings : Settings) (glbtab : List Symbol) (image : List Byte) : Prop where
  bound : offset (namesStart settings glbtab) (publicEntries glbtab)
    (publicEntries glbtab).length < 2 ^ 32
  header : ∀ i < headerSize, image[i]? = (finalHeader settings glbtab).bytes[i]?
  names : ∀ k (hk : k < (publicEntries glbtab).length),
    StringAt image (offset (namesStart settings glbtab) (publicEntries glbtab) k)
      (publicEntries glbtab)[k].name.1.bytes
  own : ∀ k (hk : k < (publicEntries glbtab).length), k < 32768 →
    (publicEntries glbtab).length ≤ 65536 →
    ¬ Reaches k (publicEntries glbtab).length (counts settings glbtab) →
    ∀ b < 8, image[headerSize + k * 8 + b]? =
      (stub (namesStart settings glbtab) (publicEntries glbtab) k hk)[b]?
  empty : ∀ k < (publicEntries glbtab).length, 32768 ≤ k →
    ¬ Reaches k (publicEntries glbtab).length (counts settings glbtab) →
    ∀ b < 8, image[headerSize + k * 8 + b]? = some 0
  foreign : ∀ k < (publicEntries glbtab).length,
    Reaches k (publicEntries glbtab).length (counts settings glbtab) →
    Foreign image (headerSize + k * 8)
      (offset (namesStart settings glbtab) (publicEntries glbtab) (publicEntries glbtab).length)

section

variable {settings : Settings} {glbtab : List Symbol} {image : List Byte}

theorem image_of_assemble (h : assemble settings glbtab = some image) :
    Image settings glbtab image := by
  obtain ⟨natives, hnatives, hcod, hnameofs, himage⟩ := of_assemble h
  have hnametable := nametable_eq settings glbtab
  have hcodeq := cod_eq settings glbtab
  have hpublics : (publicEntries glbtab).length = (publics glbtab).length := List.length_map _
  have hstart : (beforeTables settings glbtab).nameofs = namesStart settings glbtab := rfl
  have hroom : headerSize + (publicEntries glbtab).length * 8 ≤
      (beforeTables settings glbtab).nameofs := by
    rw [hstart, namesStart]
    omega
  have hfirst := written_writeTable headerSize (publicEntries glbtab)
    (beforeTables settings glbtab) hroom nameofs_le_beforeTables
  have hcounts : ([nativeEntries settings natives, libraryEntries settings,
      pubvarEntries glbtab, settings.tags].map List.length) = counts settings glbtab := by
    simp [counts, nativeEntries, libraryEntries, length_nativelist hnatives]
  have hnames : (beforeTables settings glbtab).nameofs ≤
      (writeTable headerSize (publicEntries glbtab) (beforeTables settings glbtab)).nameofs := by
    rw [hfirst.nameofs]
    exact offset_le_offset _ (Nat.zero_le _) le_rfl
  have hrest : AllWritten headerSize (publicEntries glbtab).length (counts settings glbtab)
      (writeTable headerSize (publicEntries glbtab) (beforeTables settings glbtab))
      (writeHeader settings glbtab natives) := by
    rw [← hcounts, writeHeader, writeTables]
    refine allWritten_writeTables ?_ hfirst.length
    rw [hcounts]
    rw [hstart, namesStart] at hnames
    omega
  have hend := hfirst.nameofs
  rw [hstart] at hroom hnames hend
  rw [namesStart] at hnames
  have hnames' := hrest.nameofs
  have hsum : (publicEntries glbtab).length * 8 + (counts settings glbtab).sum * 8 + headerSize =
      (header settings glbtab).nametable := by omega
  -- what `finish` leaves of the tables and of the names
  have hkept : ∀ i, headerSize ≤ i → i < (writeHeader settings glbtab natives).nameofs →
      (i < (header settings glbtab).nametable ∨ (header settings glbtab).nametable + 2 ≤ i) →
      image[i]? = (writeHeader settings glbtab natives).file.bytes[i]? := by
    intro i hi hlt hname
    have hin := hlt.trans_le hrest.length
    have hbefore : i < (header settings glbtab).cod := by omega
    rw [himage]
    exact getElem?_finish hi hin hbefore hname
  have hentry : ∀ k < (publicEntries glbtab).length,
      ¬ Reaches k (publicEntries glbtab).length (counts settings glbtab) → ∀ b < 8,
        image[headerSize + k * 8 + b]? = (writeTable headerSize (publicEntries glbtab)
          (beforeTables settings glbtab)).file.bytes[headerSize + k * 8 + b]? := by
    intro k hk hnot b hb
    rw [hkept _ (by omega) (by omega) (by omega)]
    exact hrest.apart k (by omega) hnot b hb
  constructor
  · omega
  · intro i hi
    rw [himage]
    exact getElem?_finish_header _ hi
  · intro k hk
    have hstring := hfirst.names k hk hk
    rw [hstart] at hstring
    refine hstring.of_agree fun i hlow hhigh => ?_
    have hfrom := offset_le_offset (namesStart settings glbtab) (Nat.zero_le k) hk.le
    rw [offset_zero, namesStart] at hfrom
    have hto := offset_le_offset (namesStart settings glbtab) (Nat.succ_le_of_lt hk) le_rfl
    rw [offset_succ hk] at hto
    change i ≤ _ + (publicEntries glbtab)[k].name.1.size at hhigh
    rw [namesStart] at hlow hhigh hto hend
    rw [hkept i (by omega) (by omega) (by omega)]
    exact hrest.behind i (by omega) (by omega)
  · intro k hk hlow hfew hnot b hb
    have hplace : place headerSize k = (headerSize + k * 8 : Nat) := by
      rw [place, wrapped_of_lt hlow]
      omega
    obtain ⟨k', hk', hplace', hbytes⟩ := hfirst.put (headerSize + k * 8) (by omega) ⟨k, hk, hplace⟩
    have hsame : k' = k := by
      rw [place, wrapped_eq] at hplace'
      split at hplace' <;> omega
    subst hsame
    rw [hentry k' hk hnot b hb, hbytes b hb, hstart]
  · intro k hk hhigh hnot b hb
    rw [hentry k hk hnot b hb, hfirst.kept _ (by rw [hstart]; omega) fun j _ => .inr ?_]
    · exact getElem?_beforeTables (by omega) (by omega)
    · have := wrapped_lt j
      rw [place]
      omega
  · intro k hk hreaches
    obtain ⟨ofs, hle, hofs, hbytes⟩ := hrest.reached k (by omega) hreaches
    rw [hend] at hle
    refine ⟨ofs, hle, hofs, fun b hb => ?_⟩
    rw [hkept _ (by omega) (by omega) (by omega)]
    exact hbytes b hb

/-! What the abstract machine reads of it. -/

namespace Image

variable {k : Nat}

theorem number_header (h : Image settings glbtab image) {front back : List (Nat × Nat)}
    {start width n : Nat}
    (hfields : (finalHeader settings glbtab).fields = front ++ (width, n) :: back)
    (hstart : (front.map Prod.fst).sum = start) (hpos : 0 < width) (hn : n < 256 ^ width) :
    number image start width = some n := by
  have hlength := length_headerBytes (finalHeader settings glbtab)
  rw [Header.bytes, hfields, length_fieldBytes, List.map_append, List.map_cons, List.sum_append,
    List.sum_cons, hstart] at hlength
  refine number_of_bytes hpos hn fun b hb => ?_
  rw [h.header _ (by omega), Header.bytes, hfields, ← hstart]
  exact getElem?_fieldBytes front back hb

theorem defsize (h : Image settings glbtab image) : number image 10 2 = some 8 := by
  have hfields : (finalHeader settings glbtab).fields =
      (finalHeader settings glbtab).fields.take 5 ++
        (2, 8) :: (finalHeader settings glbtab).fields.drop 6 := rfl
  exact h.number_header hfields (by simp [Header.fields]) (by decide) (by decide)

theorem publics (h : Image settings glbtab image) : number image 32 4 = some headerSize := by
  have hfields : (finalHeader settings glbtab).fields =
      (finalHeader settings glbtab).fields.take 11 ++
        (4, headerSize) :: (finalHeader settings glbtab).fields.drop 12 := rfl
  exact h.number_header hfields (by simp [Header.fields]) (by decide) (by decide)

theorem le_bound (h : Image settings glbtab image) :
    headerSize + (publicEntries glbtab).length * 8 < 2 ^ 32 := by
  have hbound := h.bound
  have hfrom := offset_le_offset (namesStart settings glbtab)
    (Nat.zero_le (publicEntries glbtab).length) le_rfl
  have hnametable := nametable_eq settings glbtab
  have hpublics : (publicEntries glbtab).length = (Publics.publics glbtab).length :=
    List.length_map _
  rw [offset_zero] at hfrom
  have hstart : namesStart settings glbtab = (Publics.header settings glbtab).nametable + 2 := rfl
  omega

theorem natives (h : Image settings glbtab image) :
    number image 36 4 = some (headerSize + (publicEntries glbtab).length * 8) := by
  have hfields : (finalHeader settings glbtab).fields =
      (finalHeader settings glbtab).fields.take 12 ++
        (4, headerSize + (publicEntries glbtab).length * 8) ::
          (finalHeader settings glbtab).fields.drop 13 := rfl
  exact h.number_header hfields (by simp [Header.fields]) (by decide) h.le_bound

theorem numPublics_eq (h : Image settings glbtab image) :
    numPublics image = some (publicEntries glbtab).length := by
  simp only [numPublics, h.defsize, h.publics, h.natives, Option.bind_eq_bind, Option.bind_some]
  rw [if_pos (Nat.le_add_right _ _), Nat.add_sub_cancel_left, Nat.mul_div_cancel _ (by decide)]

theorem getEntry_eq (h : Image settings glbtab image) (k : Nat) :
    getEntry image k = some (headerSize + k * 8) := by
  simp only [getEntry, h.defsize, h.publics, Option.bind_eq_bind, Option.bind_some]

theorem getEntryName_eq (h : Image settings glbtab image) (entry : Nat) :
    getEntryName image entry = number image (entry + 4) 4 := by
  simp only [getEntryName, h.defsize, Option.bind_eq_bind, Option.bind_some, if_true]

theorem entry_of_stub (h : Image settings glbtab image)
    (hk : k < (publicEntries glbtab).length)
    (hbytes : ∀ b < 8, image[headerSize + k * 8 + b]? =
      (stub (namesStart settings glbtab) (publicEntries glbtab) k hk)[b]?) :
    addressOf image k = some (publicEntries glbtab)[k].address.toNat ∧
      number image (headerSize + k * 8 + 4) 4 =
        some (offset (namesStart settings glbtab) (publicEntries glbtab) k) := by
  have hoffset := (offset_le_offset (namesStart settings glbtab) hk.le le_rfl).trans_lt h.bound
  constructor
  · have hnumber : number image (headerSize + k * 8) 4 =
        some (publicEntries glbtab)[k].address.toNat := by
      refine number_of_bytes (by decide) (publicEntries glbtab)[k].address.isLt fun b hb => ?_
      rw [hbytes b (by omega), stub, List.getElem?_append_left (by rw [length_littleEndian]; omega)]
    simp only [addressOf, h.getEntry_eq, Option.bind_eq_bind, Option.bind_some]
    exact hnumber
  · refine number_of_bytes (by decide) hoffset fun b hb => ?_
    rw [Nat.add_assoc _ 4 b, hbytes (4 + b) (by omega), stub, littleEndian_append_high]

theorem getPublic_of_number (h : Image settings glbtab image)
    (hk : k < (publicEntries glbtab).length)
    (hnumber : number image (headerSize + k * 8 + 4) 4 =
      some (offset (namesStart settings glbtab) (publicEntries glbtab) k)) :
    getPublic image k = some (publicEntries glbtab)[k].name.1 := by
  have hstring := h.names k hk
  have hname : CString.ofMemory (image.drop
      (offset (namesStart settings glbtab) (publicEntries glbtab) k)) =
        (publicEntries glbtab)[k].name.1 :=
    CString.ext (hstring.takeWhile (publicEntries glbtab)[k].name.1.noNul)
  have hend : (0 : Byte) ∈ image.drop
      (offset (namesStart settings glbtab) (publicEntries glbtab) k) := by
    have hlast := hstring _ le_rfl
    rw [List.getElem?_append_right le_rfl, Nat.sub_self, ← List.getElem?_drop] at hlast
    exact List.mem_of_getElem? hlast
  simp only [getPublic, h.numPublics_eq, h.getEntry_eq, h.getEntryName_eq, hnumber,
    Option.bind_eq_bind, Option.bind_some, hname]
  exact if_pos ⟨hk, hend, (publicEntries glbtab)[k].name.2⟩

theorem findPublic_eq (h : Image settings glbtab image) (name : CString) :
    findPublic image name =
      bisect (fun mid => (getPublic image mid).map fun pname => strcmp pname.bytes name.bytes)
        0 ((publicEntries glbtab).length - 1) := by
  simp only [findPublic, h.numPublics_eq, Option.bind_eq_bind, Option.bind_some]

theorem getPublic_of_findPublic (h : Image settings glbtab image) {name : CString}
    (hfound : findPublic image name = some (some k)) : getPublic image k = some name := by
  rw [h.findPublic_eq] at hfound
  have hcompare := compare_of_bisect hfound
  obtain ⟨pname, hpublic, hzero⟩ := Option.map_eq_some_iff.mp hcompare
  rw [hpublic, CString.ext (strcmp_eq_zero.mp hzero)]

theorem lt_of_getPublic (h : Image settings glbtab image) {name : CString}
    (hpublic : getPublic image k = some name) : k < (publicEntries glbtab).length := by
  simp only [getPublic, h.numPublics_eq, Option.bind_eq_bind, Option.bind_some,
    Option.bind_eq_some_iff] at hpublic
  obtain ⟨entry, -, place, -, hif⟩ := hpublic
  split at hif
  next hassert => exact hassert.1
  next => cases hif

end Image

/-- The public functions that are defined are found, each at the entry that was made for it; other
names are not found. -/
structure Right (settings : Settings) (glbtab : List Symbol) (image : List Byte) : Prop where
  found : ∀ k (hk : k < (publicEntries glbtab).length),
    findPublic image (publicEntries glbtab)[k].name.1 = some (some k)
  address : ∀ k (hk : k < (publicEntries glbtab).length),
    addressOf image k = some (publicEntries glbtab)[k].address.toNat
  nameofs : ∀ k < (publicEntries glbtab).length,
    (getEntry image k).bind (getEntryName image) =
      some (offset (namesStart settings glbtab) (publicEntries glbtab) k)
  notFound : ∀ name : CString, (∀ entry ∈ publicEntries glbtab, entry.name.1 ≠ name) →
    findPublic image name = some none

/-- The 16-bit counter reaches all public functions, and where it goes wrong for another table, it
does not come to an entry of a public function. -/
def Fits (settings : Settings) (glbtab : List Symbol) : Prop :=
  (publicEntries glbtab).length ≤ 32768 ∧
    ∀ k < (publicEntries glbtab).length,
      ¬ Reaches k (publicEntries glbtab).length (counts settings glbtab)

theorem pairwise_publicEntries (h : Sorted glbtab)
    (hnames : (glbtab.map Symbol.name).Nodup) :
    (publicEntries glbtab).Pairwise fun a b =>
      a.name.1.bytes.map BitVec.toNat < b.name.1.bytes.map BitVec.toNat :=
  List.pairwise_map.mpr (pairwise_publics h hnames)

theorem ascending_of_pairwise {entries : List Entry} (name : CString)
    (hsorted : entries.Pairwise fun a b =>
      a.name.1.bytes.map BitVec.toNat < b.name.1.bytes.map BitVec.toNat)
    (hpublic : ∀ k (hk : k < entries.length), getPublic image k = some entries[k].name.1) :
    Ascending (fun mid => (getPublic image mid).map fun pname => strcmp pname.bytes name.bytes)
      entries.length := by
  have hless := List.pairwise_iff_getElem.mp hsorted
  intro i hi
  refine ⟨strcmp entries[i].name.1.bytes name.bytes, ?_, fun hle j hj => ?_, fun hle j hj hlt => ?_⟩
  · simp only [hpublic i hi, Option.map_some]
  · have hj' : j < entries.length := hj.trans hi
    refine ⟨strcmp entries[j].name.1.bytes name.bytes, ?_, ?_⟩
    · rw [strcmp_neg_iff]
      rw [← not_lt, strcmp_pos_iff, not_lt] at hle
      exact (hless j i hj' hi hj).trans_le hle
    · simp only [hpublic j hj', Option.map_some]
  · refine ⟨strcmp entries[j].name.1.bytes name.bytes, ?_, ?_⟩
    · rw [gt_iff_lt, strcmp_pos_iff]
      rw [← not_lt, strcmp_neg_iff, not_lt] at hle
      exact hle.trans_lt (hless i j hi hlt hj)
    · simp only [hpublic j hlt, Option.map_some]

theorem right_of_fits (h : Image settings glbtab image) (hsorted : Sorted glbtab)
    (hnames : (glbtab.map Symbol.name).Nodup) (hfits : Fits settings glbtab) :
    Right settings glbtab image := by
  obtain ⟨hfew, hapart⟩ := hfits
  have hentry : ∀ k (hk : k < (publicEntries glbtab).length), _ := fun k hk =>
    h.entry_of_stub hk (h.own k hk (hk.trans_le hfew) (by omega) (hapart k hk))
  have hpublic : ∀ k (hk : k < (publicEntries glbtab).length),
      getPublic image k = some (publicEntries glbtab)[k].name.1 := fun k hk =>
    h.getPublic_of_number hk (hentry k hk).2
  have hpairwise := pairwise_publicEntries hsorted hnames
  have hsearch : ∀ name : CString,
      (∃ i, ∃ hi : i < (publicEntries glbtab).length, findPublic image name = some (some i) ∧
        (publicEntries glbtab)[i].name.1 = name) ∨
      findPublic image name = some none ∧
        ∀ i (hi : i < (publicEntries glbtab).length), (publicEntries glbtab)[i].name.1 ≠ name := by
    intro name
    rw [h.findPublic_eq]
    have hascending := ascending_of_pairwise name hpairwise hpublic
    rcases bisect_of_ascending hascending le_rfl (Int.sub_one_lt_iff.mpr le_rfl)
      (fun j hj => by omega) (fun j hj hlt => by omega) with
      ⟨i, hi, hfound, hzero⟩ | ⟨hnone, hne⟩
    · refine .inl ⟨i, hi, hfound, CString.ext (strcmp_eq_zero.mp ?_)⟩
      simpa [hpublic i hi] using hzero
    · refine .inr ⟨hnone, fun i hi heq => hne i hi ?_⟩
      simp only [hpublic i hi, Option.map_some, heq, strcmp_eq_zero.mpr rfl]
  constructor
  · intro k hk
    rcases hsearch (publicEntries glbtab)[k].name.1 with ⟨i, hi, hfound, hname⟩ | ⟨-, hne⟩
    · have hsame : i = k := by
        have hless := List.pairwise_iff_getElem.mp hpairwise
        rcases lt_trichotomy i k with hlt | heq | hgt
        · exact absurd (hless i k hi hk hlt) (hname ▸ lt_irrefl _)
        · exact heq
        · exact absurd (hless k i hk hi hgt) (hname ▸ lt_irrefl _)
      rw [hfound, hsame]
    · exact absurd rfl (hne k hk)
  · exact fun k hk => (hentry k hk).1
  · intro k hk
    rw [h.getEntry_eq, Option.bind_some, h.getEntryName_eq]
    exact (hentry k hk).2
  · intro name hother
    rcases hsearch name with ⟨i, hi, -, hname⟩ | ⟨hnone, -⟩
    · exact absurd hname (hother _ (List.getElem_mem hi))
    · exact hnone

theorem fits_of_right (h : Image settings glbtab image) (hright : Right settings glbtab image) :
    Fits settings glbtab := by
  have hnumber : ∀ k < (publicEntries glbtab).length,
      number image (headerSize + k * 8 + 4) 4 =
        some (offset (namesStart settings glbtab) (publicEntries glbtab) k) := by
    intro k hk
    have hnameofs := hright.nameofs k hk
    rw [h.getEntry_eq, Option.bind_some, h.getEntryName_eq] at hnameofs
    exact hnameofs
  have hapart : ∀ k < (publicEntries glbtab).length,
      ¬ Reaches k (publicEntries glbtab).length (counts settings glbtab) := by
    intro k hk hreaches
    obtain ⟨ofs, hle, hofs, hbytes⟩ := h.foreign k hk hreaches
    have hforeign := number_of_bytes (by decide) hofs hbytes
    rw [hnumber k hk, Option.some_inj] at hforeign
    have hbefore := offset_le_offset (namesStart settings glbtab) (Nat.succ_le_of_lt hk) le_rfl
    rw [offset_succ hk] at hbefore
    omega
  refine ⟨not_lt.mp fun hmany => ?_, hapart⟩
  have hzeros : ∀ b < 4, (littleEndian 4 0)[b]? = some 0 := by decide
  have hzero : number image (headerSize + 32768 * 8 + 4) 4 = some 0 := by
    refine number_of_bytes (by decide) (by decide) fun b hb => ?_
    rw [Nat.add_assoc _ 4 b, h.empty 32768 hmany le_rfl (hapart 32768 hmany) (4 + b) (by omega),
      hzeros b hb]
  rw [hnumber 32768 hmany, Option.some_inj] at hzero
  have hstart := offset_le_offset (namesStart settings glbtab) (Nat.zero_le 32768) hmany.le
  rw [offset_zero, hzero, namesStart] at hstart
  omega

/-- After any changes of the symbol table, what `assemble` leaves has all public functions where
`amx_FindPublic` finds them exactly if the 16-bit counter is wide enough for that. -/
theorem right_iff_fits {changes : List Change} (hrun : run change [] changes = some glbtab)
    (hnames : (glbtab.map Symbol.name).Nodup) (h : assemble settings glbtab = some image) :
    Right settings glbtab image ↔ Fits settings glbtab :=
  ⟨fits_of_right (image_of_assemble h),
    right_of_fits (image_of_assemble h) (sorted_of_run hrun) hnames⟩

end

def plainSettings : Settings where
  lookupAlias _ := none
  libraries := []
  tags := []
  ntvFuncid := 0
  flags := 0
  dataAlign := 4
  codeIdx := 0
  glbDeclared := 0
  stkSize := 0
  segments := []
  compressed := none

/-- The letters from `a` to `p`, four of them. -/
def numberedName (i : Nat) : Name where
  val :=
    { bytes := [i / 4096, i / 256, i / 16, i].map fun n => BitVec.ofNat 8 (97 + n % 16)
      noNul := by
        intro hmem
        obtain ⟨n, -, hn⟩ := List.mem_map.mp hmem
        have htoNat := congrArg BitVec.toNat hn
        rw [BitVec.toNat_ofNat] at htoNat
        change (97 + n % 16) % 256 = 0 at htoNat
        omega }
  property := by simp [CString.size, nameMax]

def numberedFunction (i : Nat) : Symbol where
  name := numberedName i
  ident := .iFunctn
  usage := uPublic ||| uDefine
  addr := BitVec.ofNat 32 (8 + i * 16)
  exclusive _ := .inl (by decide)

theorem right_iff_fits_two : ∃ glbtab image,
    run change [] [.addSymbol (numberedFunction 2), .addSymbol (numberedFunction 1)] =
        some glbtab ∧
      assemble plainSettings glbtab = some image ∧
      (Right plainSettings glbtab image ↔ Fits plainSettings glbtab) := by
  have hrun : run change [] [.addSymbol (numberedFunction 2), .addSymbol (numberedFunction 1)] =
      some [numberedFunction 1, numberedFunction 2] := by rfl
  have hsome : (assemble plainSettings [numberedFunction 1, numberedFunction 2]).isSome := by
    decide
  obtain ⟨image, himage⟩ := Option.isSome_iff_exists.mp hsome
  exact ⟨_, image, hrun, himage, right_iff_fits hrun (by decide) himage⟩

/-! More public functions than the counter can count. -/

section

variable {glbtab : List Symbol}

theorem addSymbol_perm (entry : Symbol) (glbtab : List Symbol) :
    (addSymbol entry glbtab).Perm (entry :: glbtab) := by
  induction glbtab with
  | nil => exact List.Perm.refl _
  | cons next rest ih =>
      rw [addSymbol]
      split
      next => exact (ih.cons next).trans (List.Perm.swap entry next rest)
      next => exact List.Perm.refl _

theorem run_addSymbols (symbols : List Symbol) (glbtab : List Symbol) :
    ∃ glbtab', run change glbtab (symbols.map Change.addSymbol) = some glbtab' ∧
      glbtab'.Perm (symbols ++ glbtab) := by
  induction symbols generalizing glbtab with
  | nil => exact ⟨glbtab, rfl, List.Perm.refl _⟩
  | cons entry rest ih =>
      obtain ⟨glbtab', hrun, hperm⟩ := ih (addSymbol entry glbtab)
      refine ⟨glbtab', hrun, hperm.trans ?_⟩
      exact ((addSymbol_perm entry glbtab).append_left rest).trans List.perm_middle

theorem numberedName_inj {i j : Nat} (hi : i < 65536) (hj : j < 65536)
    (h : numberedName i = numberedName j) : i = j := by
  have hbytes := congrArg (fun name : Name => name.1.bytes.map BitVec.toNat) h
  simp only [numberedName, List.map_cons, List.map_nil, BitVec.toNat_ofNat, List.cons.injEq]
    at hbytes
  omega

theorem namesSize_le (names : List Name) : namesSize names ≤ names.length * 32 := by
  induction names with
  | nil => exact le_rfl
  | cons name rest ih =>
      have hshort : name.1.size ≤ 31 := name.2
      have hcons : namesSize (name :: rest) = name.1.size + 1 + namesSize rest := by
        rw [namesSize, List.map_cons, List.sum_cons]
        rfl
      rw [hcons, List.length_cons]
      omega

/-! A symbol table with public functions only. -/

theorem flags_of_isPublic {sym : Symbol} (h : sym.isPublic = true) :
    sym.ident = .iFunctn ∧ sym.usage &&& uNative = 0 := by
  simp only [Symbol.isPublic, Bool.and_eq_true, decide_eq_true_eq] at h
  exact ⟨h.1.1, (sym.exclusive h.1.1).resolve_right h.1.2⟩

theorem natives_of_isPublic (h : ∀ sym ∈ glbtab, sym.isPublic = true) :
    glbtab.filter Symbol.isNative = [] := by
  refine List.filter_eq_nil_iff.mpr fun sym hsym => ?_
  have hzero := (flags_of_isPublic (h sym hsym)).2
  simp only [Symbol.isNative, hzero]
  simp

theorem pubvarEntries_of_isPublic (h : ∀ sym ∈ glbtab, sym.isPublic = true) :
    pubvarEntries glbtab = [] := by
  have hpubvars : glbtab.filter Symbol.isPubvar = [] := by
    refine List.filter_eq_nil_iff.mpr fun sym hsym => ?_
    simp [Symbol.isPubvar, (flags_of_isPublic (h sym hsym)).1]
  rw [pubvarEntries, hpubvars, List.map_nil]

theorem counts_of_isPublic (h : ∀ sym ∈ glbtab, sym.isPublic = true) :
    counts plainSettings glbtab = [0, 0, 0, 0] := by
  rw [counts, natives_of_isPublic h, pubvarEntries_of_isPublic h]
  rfl

theorem nametablesize_of_isPublic (h : ∀ sym ∈ glbtab, sym.isPublic = true) :
    nametablesize plainSettings glbtab = 2 + namesSize (glbtab.map Symbol.name) := by
  have hmatched : glbtab.filter (fun sym => sym.isNative || sym.isPublic || sym.isPubvar) =
      glbtab := List.filter_eq_self.mpr fun sym hsym => by simp [h sym hsym]
  have hnameOf : glbtab.map plainSettings.nameOf = glbtab.map Symbol.name :=
    List.map_congr_left fun sym hsym => if_pos (flags_of_isPublic (h sym hsym)).2
  simp only [nametablesize, hmatched, hnameOf]
  rfl

theorem nameofs_writeTables_replicate (k table : Nat) (w : Writer) :
    (writeTables table (List.replicate k []) w).nameofs = w.nameofs := by
  induction k generalizing table w with
  | zero => rfl
  | succ k ih =>
      rw [List.replicate_succ, writeTables, ih]
      rfl

theorem nameofs_of_isPublic (h : ∀ sym ∈ glbtab, sym.isPublic = true) :
    (writeHeader plainSettings glbtab []).nameofs =
      (header plainSettings glbtab).nametable + nametablesize plainSettings glbtab := by
  have htables : (writeHeader plainSettings glbtab []).nameofs = (writeTable headerSize
      (publicEntries glbtab) (beforeTables plainSettings glbtab)).nameofs := by
    have hempty : [nativeEntries plainSettings [], libraryEntries plainSettings, [],
        plainSettings.tags] = List.replicate 4 [] := rfl
    rw [writeHeader, pubvarEntries_of_isPublic h, writeTables, hempty,
      nameofs_writeTables_replicate]
  have hpublics : publics glbtab = glbtab := List.filter_eq_self.mpr h
  have hroom : headerSize + (publicEntries glbtab).length * 8 ≤
      (beforeTables plainSettings glbtab).nameofs := by
    have hnametable := nametable_eq plainSettings glbtab
    have hnameofs : (beforeTables plainSettings glbtab).nameofs =
        (header plainSettings glbtab).nametable + 2 := rfl
    rw [publicEntries, List.length_map]
    omega
  have hwritten := written_writeTable headerSize (publicEntries glbtab)
    (beforeTables plainSettings glbtab) hroom nameofs_le_beforeTables
  have hnames : (publicEntries glbtab).map Entry.name = glbtab.map Symbol.name := by
    rw [publicEntries, hpublics, List.map_map]
    rfl
  rw [htables, hwritten.nameofs, offset, List.take_length, hnames, nametablesize_of_isPublic h,
    ← Nat.add_assoc]
  rfl

theorem exists_assemble (h : ∀ sym ∈ glbtab, sym.isPublic = true)
    (hsize : glbtab.length ≤ 2 ^ 20) : ∃ image, assemble plainSettings glbtab = some image := by
  have hlist : nativelist glbtab = some [] := by
    simp [nativelist, natives_of_isPublic h]
  have hcod : (header plainSettings glbtab).cod < 2 ^ 31 := by
    have hpadding : padding plainSettings glbtab ≤ 4 := by
      simp only [padding]
      split
      · exact Nat.zero_le _
      · exact Nat.sub_le _ _
    have hpublics : publics glbtab = glbtab := List.filter_eq_self.mpr h
    have hnametable := nametable_eq plainSettings glbtab
    have hnames := namesSize_le (glbtab.map Symbol.name)
    rw [List.length_map] at hnames
    rw [hpublics, counts_of_isPublic h] at hnametable
    rw [cod_eq, nametablesize_of_isPublic h, hnametable]
    simp only [headerSize, List.sum_cons, List.sum_nil]
    omega
  refine ⟨(finish plainSettings glbtab (writeHeader plainSettings glbtab []).file).bytes, ?_⟩
  simp only [assemble, hlist, Option.bind_eq_bind, Option.bind_some]
  exact if_pos ⟨by decide, rfl, hcod, nameofs_of_isPublic h⟩

/-- With 32769 public functions the last one is not found at an entry with its address. -/
theorem not_found_many :
    ¬ ∀ settings changes glbtab image, run change [] changes = some glbtab →
      (glbtab.map Symbol.name).Nodup → assemble settings glbtab = some image →
        ∀ entry ∈ publicEntries glbtab, ∃ index,
          findPublic image entry.name.1 = some (some index) ∧
            addressOf image index = some entry.address.toNat := by
  intro hall
  obtain ⟨glbtab, hrun, hperm⟩ := run_addSymbols ((List.range 32769).map numberedFunction) []
  rw [List.append_nil] at hperm
  have hmem : ∀ sym ∈ glbtab, ∃ i < 32769, numberedFunction i = sym := by
    intro sym hsym
    obtain ⟨i, hi, heq⟩ := List.mem_map.mp (hperm.mem_iff.mp hsym)
    exact ⟨i, List.mem_range.mp hi, heq⟩
  have hpublic : ∀ sym ∈ glbtab, sym.isPublic = true := by
    intro sym hsym
    obtain ⟨i, -, rfl⟩ := hmem sym hsym
    simp [Symbol.isPublic, numberedFunction]
  have hpublics : publics glbtab = glbtab := List.filter_eq_self.mpr hpublic
  have hlength : (publicEntries glbtab).length = 32769 := by
    rw [publicEntries, hpublics, List.length_map, hperm.length_eq, List.length_map,
      List.length_range]
  have hnames : (glbtab.map Symbol.name).Nodup := by
    rw [(hperm.map Symbol.name).nodup_iff, List.map_map]
    refine List.Nodup.map_on (fun i hi j hj heq => ?_) List.nodup_range
    have hi := List.mem_range.mp hi
    have hj := List.mem_range.mp hj
    exact numberedName_inj (by omega) (by omega) heq
  obtain ⟨image, himage⟩ := exists_assemble hpublic (by
    rw [publicEntries, hpublics, List.length_map] at hlength
    omega)
  have h := image_of_assemble himage
  have hapart : ∀ k, ¬ Reaches k (publicEntries glbtab).length (counts plainSettings glbtab) := by
    intro k
    simp [counts_of_isPublic hpublic, Reaches]
  have hlast : 32768 < (publicEntries glbtab).length := by omega
  obtain ⟨index, hfound, haddress⟩ := hall plainSettings _ glbtab image hrun hnames himage
    (publicEntries glbtab)[32768] (List.getElem_mem hlast)
  have hname := h.getPublic_of_findPublic hfound
  have hindex := h.lt_of_getPublic hname
  rcases Nat.lt_or_ge index 32768 with hlt | hge
  · -- the entries in front of it have other names
    have hentry := h.entry_of_stub hindex
      (h.own index hindex hlt (by omega) (hapart index))
    rw [h.getPublic_of_number hindex hentry.2, Option.some_inj] at hname
    have hpairwise := pairwise_publicEntries (sorted_of_run hrun) hnames
    have hless := List.pairwise_iff_getElem.mp hpairwise index 32768 hindex hlast hlt
    exact absurd hless (hname ▸ lt_irrefl _)
  · -- its own entry was not written
    obtain rfl : index = 32768 := by omega
    have hzeros : ∀ b < 4, (littleEndian 4 0)[b]? = some 0 := by decide
    have hzero : number image (headerSize + 32768 * 8) 4 = some 0 := by
      refine number_of_bytes (by decide) (by decide) fun b hb => ?_
      rw [h.empty 32768 hlast le_rfl (hapart 32768) b (by omega), hzeros b hb]
    simp only [addressOf, h.getEntry_eq, Option.bind_eq_bind, Option.bind_some] at haddress
    rw [hzero, Option.some_inj] at haddress
    obtain ⟨sym, hsym, hentry⟩ := List.mem_map.mp (List.getElem_mem hlast)
    obtain ⟨i, hi, rfl⟩ := hmem sym (List.mem_filter.mp hsym).1
    rw [← hentry] at haddress
    change 0 = (BitVec.ofNat 32 (8 + i * 16)).toNat at haddress
    rw [BitVec.toNat_ofNat] at haddress
    omega

end

end AmxModC.Compiler.Publics
