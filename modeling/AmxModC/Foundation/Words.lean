import AmxModC.Foundation.Codec

namespace AmxModC.Foundation

/-! Words of four bytes in a memory of bytes, the least significant byte first.  Addresses wrap
around, and nothing is said about alignment. -/

abbrev Words := BitVec 32 → Byte

namespace Words

def load (m : Words) (a : BitVec 32) : BitVec 32 := m (a + 3) ++ m (a + 2) ++ m (a + 1) ++ m a

def store (m : Words) (a v : BitVec 32) : Words := fun x =>
  if x = a then v.extractLsb' 0 8
  else if x = a + 1 then v.extractLsb' 8 8
  else if x = a + 2 then v.extractLsb' 16 8
  else if x = a + 3 then v.extractLsb' 24 8
  else m x

def InWord (a x : BitVec 32) : Prop := x = a ∨ x = a + 1 ∨ x = a + 2 ∨ x = a + 3

/-- Two memories that differ at most inside a region. -/
def AgreeOff (region : BitVec 32 → Prop) (m m' : Words) : Prop := ∀ x, ¬ region x → m x = m' x

/-- The word at an address does not meet the region. -/
def Clear (region : BitVec 32 → Prop) (a : BitVec 32) : Prop :=
  ¬ region a ∧ ¬ region (a + 1) ∧ ¬ region (a + 2) ∧ ¬ region (a + 3)

/-- The word at an address lies in the region. -/
def Within (region : BitVec 32 → Prop) (a : BitVec 32) : Prop :=
  region a ∧ region (a + 1) ∧ region (a + 2) ∧ region (a + 3)

section

variable {region region' : BitVec 32 → Prop} {m m' m'' : Words} {a b v w : BitVec 32}

theorem AgreeOff.refl (region : BitVec 32 → Prop) (m : Words) : AgreeOff region m m :=
  fun _ _ => rfl

theorem AgreeOff.symm (h : AgreeOff region m m') : AgreeOff region m' m :=
  fun x hx => (h x hx).symm

theorem AgreeOff.trans (h : AgreeOff region m m') (h' : AgreeOff region m' m'') :
    AgreeOff region m m'' :=
  fun x hx => (h x hx).trans (h' x hx)

theorem AgreeOff.mono (hsub : ∀ x, region x → region' x) (h : AgreeOff region m m') :
    AgreeOff region' m m' :=
  fun x hx => h x fun hin => hx (hsub x hin)

theorem Clear.anti (hsub : ∀ x, region x → region' x) (h : Clear region' a) : Clear region a :=
  ⟨fun hx => h.1 (hsub _ hx), fun hx => h.2.1 (hsub _ hx), fun hx => h.2.2.1 (hsub _ hx),
    fun hx => h.2.2.2 (hsub _ hx)⟩

theorem Within.mono (hsub : ∀ x, region x → region' x) (h : Within region a) : Within region' a :=
  ⟨hsub _ h.1, hsub _ h.2.1, hsub _ h.2.2.1, hsub _ h.2.2.2⟩

theorem AgreeOff.load_eq (h : AgreeOff region m m') (ha : Clear region a) :
    load m a = load m' a := by
  obtain ⟨h0, h1, h2, h3⟩ := ha
  rw [load, load, h _ h0, h _ h1, h _ h2, h _ h3]

theorem AgreeOff.store (h : AgreeOff region m m') (a v : BitVec 32) :
    AgreeOff region (store m a v) (store m' a v) := by
  intro x hx
  unfold Words.store
  rw [h x hx]

theorem AgreeOff.store_word (h : AgreeOff region m m') (a v : BitVec 32) :
    AgreeOff (fun x => region x ∧ ¬ InWord a x) (Words.store m a v) (Words.store m' a v) := by
  intro x hx
  unfold Words.store
  split_ifs with h0 h1 h2 h3
  · rfl
  · rfl
  · rfl
  · rfl
  · refine h x fun hin => hx ⟨hin, ?_⟩
    rintro (hx0 | hx1 | hx2 | hx3)
    exacts [h0 hx0, h1 hx1, h2 hx2, h3 hx3]

theorem store_of_not {x : BitVec 32} (hx : ¬ InWord a x) : Words.store m a v x = m x := by
  obtain ⟨h0, h1, h2, h3⟩ : x ≠ a ∧ x ≠ a + 1 ∧ x ≠ a + 2 ∧ x ≠ a + 3 := by
    simpa only [InWord, not_or] using hx
  rw [Words.store, if_neg h0, if_neg h1, if_neg h2, if_neg h3]

theorem agreeOff_store (ha : Within region a) : AgreeOff region (store m a v) m := by
  obtain ⟨h0, h1, h2, h3⟩ := ha
  intro x hx
  have hne : ∀ y, region y → x ≠ y := fun y hy hxy => hx (hxy ▸ hy)
  rw [Words.store, if_neg (hne _ h0), if_neg (hne _ h1), if_neg (hne _ h2), if_neg (hne _ h3)]

theorem store_load_bytes (v : BitVec 32) :
    v.extractLsb' 24 8 ++ v.extractLsb' 16 8 ++ v.extractLsb' 8 8 ++ v.extractLsb' 0 8 = v := by
  apply BitVec.eq_of_getLsbD_eq
  intro i hi
  simp only [BitVec.getLsbD_append, BitVec.getLsbD_extractLsb']
  split
  · simp [*]
  · split
    · next h0 h1 =>
        have : 8 + (i - 8) = i := by omega
        simp [this]
        omega
    · split
      · next h0 h1 h2 =>
          have : 16 + (i - 8 - 8) = i := by omega
          simp [this]
          omega
      · next h0 h1 h2 =>
          have : 24 + (i - 8 - 8 - 8) = i := by omega
          simp [this]
          omega

@[simp] theorem load_store_same (m : Words) (a v : BitVec 32) : load (store m a v) a = v := by
  have h1 : a + 1 ≠ a := by bv_omega
  have h2 : a + 2 ≠ a := by bv_omega
  have h3 : a + 3 ≠ a := by bv_omega
  have h21 : a + 2 ≠ a + 1 := by bv_omega
  have h31 : a + 3 ≠ a + 1 := by bv_omega
  have h32 : a + 3 ≠ a + 2 := by bv_omega
  simp only [load, store, if_neg h1, if_neg h2, if_neg h3, if_neg h21, if_neg h31, if_neg h32,
    if_true]
  exact store_load_bytes v

theorem load_store_of_clear (ha : Clear region a) (hb : Within region b) :
    load (store m b v) a = load m a :=
  (agreeOff_store hb).load_eq ha

@[simp] theorem store_store_same (m : Words) (a v w : BitVec 32) :
    store (store m a v) a w = store m a w := by
  funext x
  unfold store
  split_ifs <;> rfl

end

end Words

end AmxModC.Foundation
