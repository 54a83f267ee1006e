import AmxModC.Exec.Code

namespace AmxModC.Compiler.Peephole

open Foundation Words Exec

/-! What each kind of sequence of the optimizer leaves as it was. -/

section

theorem toInt_sub_word {a : Cell} {k : Nat} (hk : k < 2 ^ 31) (h : -2 ^ 31 ≤ a.toInt - k) :
    (a - BitVec.ofNat 32 k).toInt = a.toInt - k := by
  have hlt : a.toInt < 2 ^ 31 := BitVec.toInt_lt
  have hkk : (BitVec.ofNat 32 k).toInt = k := by
    rw [BitVec.toInt_eq_toNat_cond, BitVec.toNat_ofNat, Nat.mod_eq_of_lt (by omega)]
    omega
  rw [BitVec.toInt_sub, hkk]
  exact Int.bmod_eq_of_le (by norm_num; omega) (by norm_num; omega)

theorem free_of_room {s : State} (h : Room s) {k : Nat} (hpos : 0 < k) (hk : k ≤ 8) :
    s.Free (s.stk - BitVec.ofNat 32 k) := by
  have hlow : -2 ^ 31 ≤ s.hea.toInt := BitVec.le_toInt s.hea
  have hroom := h.1
  have hint : (s.stk - BitVec.ofNat 32 k).toInt = s.stk.toInt - k :=
    toInt_sub_word (by omega) (by omega)
  rw [State.Free, BitVec.sle_iff_toInt_le, BitVec.slt_iff_toInt_lt, hint]
  omega

theorem within_free {s : State} (h : Room s) (k : Nat) (hpos : 4 ≤ k) (hk : k ≤ 8) :
    Within s.Free (s.stk - BitVec.ofNat 32 k) := by
  have hbyte (i : Nat) (hi : i < k) :
      s.stk - BitVec.ofNat 32 k + BitVec.ofNat 32 i = s.stk - BitVec.ofNat 32 (k - i) := by
    bv_omega
  have hfree (i : Nat) (hi : i < 4) : s.Free (s.stk - BitVec.ofNat 32 k + BitVec.ofNat 32 i) := by
    rw [hbyte i (by omega)]
    exact free_of_room h (by omega) (by omega)
  have h0 := hfree 0 (by decide)
  rw [hbyte 0 (by omega)] at h0
  exact ⟨h0, hfree 1 (by decide), hfree 2 (by decide), hfree 3 (by decide)⟩

theorem within_first {s : State} (h : Room s) : Within s.Free (s.stk - 4) :=
  within_free h 4 (by decide) (by decide)

theorem within_second {s : State} (h : Room s) : Within s.Free (s.stk - 4 - 4) := by
  have hslot : s.stk - 4 - 4 = s.stk - 8#32 := by bv_omega
  rw [hslot]
  exact within_free h 8 (by decide) (by decide)

theorem toInt_add_word {a : Cell} {k : Nat} (hk : k < 2 ^ 31) (h : a.toInt + k < 2 ^ 31) :
    (a + BitVec.ofNat 32 k).toInt = a.toInt + k := by
  have hlow : -2 ^ 31 ≤ a.toInt := BitVec.le_toInt a
  have hkk : (BitVec.ofNat 32 k).toInt = k := by
    rw [BitVec.toInt_eq_toNat_cond, BitVec.toNat_ofNat, Nat.mod_eq_of_lt (by omega)]
    omega
  rw [BitVec.toInt_add, hkk]
  exact Int.bmod_eq_of_le (by norm_num; omega) (by norm_num; omega)

theorem within_top {s t : State} (h : Room s) (hstk : t.stk = s.stk + 4) (hhea : t.hea = s.hea) :
    Within t.Free s.stk := by
  obtain ⟨hroom, htop⟩ := h
  have hend : t.stk.toInt = s.stk.toInt + 4 := by
    rw [hstk]
    exact toInt_add_word (k := 4) (by decide) (by omega)
  have hbyte (i : Nat) (hi : i < 4) : t.Free (s.stk + BitVec.ofNat 32 i) := by
    have hint : (s.stk + BitVec.ofNat 32 i).toInt = s.stk.toInt + i :=
      toInt_add_word (by omega) (by omega)
    rw [State.Free, BitVec.sle_iff_toInt_le, BitVec.slt_iff_toInt_lt, hint, hend, hhea]
    omega
  have hfirst := hbyte 0 (by decide)
  rw [BitVec.add_zero] at hfirst
  exact ⟨hfirst, hbyte 1 (by decide), hbyte 2 (by decide), hbyte 3 (by decide)⟩

theorem inWord_free {s : State} {a x : Cell} (h : Within s.Free a) (hx : InWord a x) :
    s.Free x := by
  rcases hx with rfl | rfl | rfl | rfl
  exacts [h.1, h.2.1, h.2.2.1, h.2.2.2]

end

section

variable {amx : Segments} {lab : Cell → Regs} {out live : Regs} {undef : Cell → Prop}
  {s s' t u : State} {find repl : List Instr} {v w : Cell}
  {d d' : Words}

theorem exitAgree_of (hfind : runCode amx find s = .fall t) (hrepl : runCode amx repl s' = .fall u)
    (h : Agree (undefinedAt amx undef find s t) out t u) :
    ExitAgree undef (undefinedAt amx undef find s) out lab (runCode amx find s)
      (runCode amx repl s') := by
  rw [hfind, hrepl]
  exact h

theorem exitAgree_branch {l : Cell} {c : Bool} (c' : Bool)
    (hfind : runCode amx find s = if c then .jump l t else .fall t)
    (hrepl : runCode amx repl s' = if c' then .jump l u else .fall u) (hc : c = c')
    (h : Agree (undefinedAt amx undef find s t) (out.union (lab l)) t u) :
    ExitAgree undef (undefinedAt amx undef find s) out lab (runCode amx find s)
      (runCode amx repl s') := by
  subst hc
  rw [hfind, hrepl]
  cases c with
  | false => exact h.live_anti (Regs.Sub.union_left out (lab l))
  | true => exact ⟨rfl, h.live_anti (Regs.Sub.union_right out (lab l))⟩

theorem exitAgree_error {e : AmxError} (hfind : runCode amx find s = .error e t)
    (hrepl : runCode amx repl s' = .error e u) (h : AgreeOff undef t.data u.data) :
    ExitAgree undef (undefinedAt amx undef find s) out lab (runCode amx find s)
      (runCode amx repl s') := by
  rw [hfind, hrepl]
  exact ⟨rfl, h⟩

theorem agreeOff_unwritten (h : Agree undef live s s') (hwrites : ∀ x, ¬ Writes amx x find s)
    (hd : d = s.data) (hd' : d' = s'.data) : AgreeOff (undefinedAt amx undef find s t) d d' := by
  subst hd hd'
  exact h.data.mono fun x hx => Or.inl ⟨hx, hwrites x⟩

theorem inWord_within (a : Cell) : Within (InWord a) a := by
  simp [Within, InWord]

theorem agreeOff_kept (h : Agree undef live s s') (hroom : Room s)
    (hwrites : ∀ x, Writes amx x find s → InWord (s.stk - 4) x) (hstk : t.stk = s.stk)
    (hhea : t.hea = s.hea) (hd : d = s.data.store (s.stk - 4) v) (hd' : d' = s'.data) :
    AgreeOff (undefinedAt amx undef find s t) d d' := by
  subst hd hd'
  intro x hx
  have hslot : ¬ InWord (s.stk - 4) x := by
    intro hin
    refine hx (Or.inr ?_)
    rw [State.Free, hstk, hhea]
    exact inWord_free (s := s) (within_first hroom) hin
  have hdef : ¬ undef x := fun hin => hx (Or.inl ⟨hin, fun hw => hslot (hwrites x hw)⟩)
  exact (agreeOff_store (inWord_within (s.stk - 4)) x hslot).trans (h.data x hdef)

theorem agreeOff_popped (h : Agree undef live s s') (hroom : Room s)
    (hwrites : ∀ x, Writes amx x find s → InWord s.stk x) (hstk : t.stk = s.stk + 4)
    (hhea : t.hea = s.hea) (hd : d = s.data.store s.stk v) (hd' : d' = s'.data) :
    AgreeOff (undefinedAt amx undef find s t) d d' := by
  subst hd hd'
  intro x hx
  have hslot : ¬ InWord s.stk x := fun hin =>
    hx (Or.inr (inWord_free (within_top hroom hstk hhea) hin))
  have hdef : ¬ undef x := fun hin => hx (Or.inl ⟨hin, fun hw => hslot (hwrites x hw)⟩)
  exact (agreeOff_store (inWord_within s.stk) x hslot).trans (h.data x hdef)

theorem agreeOff_stored {a : Cell} (h : Agree undef live s s')
    (hwrites : ∀ x, Writes amx x find s → InWord a x) (hd : d = s.data.store a v)
    (hd' : d' = s'.data.store a v) : AgreeOff (undefinedAt amx undef find s t) d d' := by
  subst hd hd'
  exact (h.data.store_word a v).mono fun x hx => Or.inl ⟨hx.1, fun hw => hx.2 (hwrites x hw)⟩

theorem clear_of_after {op : Plain} {offs a : Cell} (hdef : ∀ x, ¬ op.Defines offs s x)
    (h : Clear (op.after undef offs s t) a) : Clear undef a :=
  h.anti fun x hx => Or.inl ⟨hx, hdef x⟩

theorem kept_value {source : Source} {offs frm : Cell} (hroom : Room s)
    (hfree : ∀ x, s.Free x → undef x) (hav : source.Avoids undef offs frm) :
    source.value offs frm (s.data.store (s.stk - 4) v) = source.value offs frm s.data :=
  Source.value_agree (agreeOff_store ((within_first hroom).mono hfree)) hav

/-! The sequences. -/

section

attribute [local simp] Plain.exec Plain.reads Plain.sets Plain.Defines

theorem preserves_keep (first second : Source) (a b : Cell) :
    Preserves amx .none (fun _ => True)
      [.plain (.get first .pri) a, .plain (.pushReg .pri) 0, .plain (.get second .pri) b,
        .plain (.pop .alt) 0]
      [.plain (.get second .pri) b, .plain (.get first .alt) a] where
  live := by
    intro lab out _ _
    simp
  agree := by
    intro lab out undef s s' _ _ hfree hroom _ hav h
    obtain ⟨(h1 : first.Avoids undef a s.frm), -, (h2 : second.Avoids undef b s.frm), -⟩ := hav
    have hkept := kept_value (v := first.value a s.frm s.data) hroom hfree h2
    refine exitAgree_of
      (t := ⟨second.value b s.frm s.data, first.value a s.frm s.data, s.frm, s.stk, s.hea,
        s.data.store (s.stk - 4) (first.value a s.frm s.data)⟩)
      (u := ⟨second.value b s'.frm s'.data, first.value a s'.frm s'.data, s'.frm, s'.stk, s'.hea,
        s'.data⟩) ?_ rfl ?_
    · simp only [runCode_nil, runCode_plain, Plain.exec, State.push, State.pop, State.setReg,
        State.reg,
        Words.load_store_same, BitVec.sub_add_cancel]
      rw [← hkept]
    · exact {
        pri := fun _ => h.value_agree h2
        alt := fun _ => h.value_agree h1
        frm := h.frm
        stk := h.stk
        hea := h.hea
        data := agreeOff_kept h hroom (by simp [Plain.exec, Plain.Defines,
          State.push, State.setReg]) rfl rfl rfl rfl }

theorem loads_comm {find rest : List Instr} {drop : Regs} {side : State → Prop}
    {first second : Source} {a b : Cell}
    (h : Preserves amx drop side find
      (.plain (.get second .pri) b :: .plain (.get first .alt) a :: rest)) :
    Preserves amx drop side find
      (.plain (.get first .alt) a :: .plain (.get second .pri) b :: rest) where
  live := by
    intro lab out hdrop hlab
    refine Regs.Sub.trans ?_ (h.live hdrop hlab)
    simp
  agree := by
    intro lab out undef s s' hdrop hlab hfree hroom hside hav hagree
    have hsame : runCode amx
        (.plain (.get first .alt) a :: .plain (.get second .pri) b :: rest) s' =
        runCode amx (.plain (.get second .pri) b :: .plain (.get first .alt) a :: rest) s' := rfl
    rw [hsame]
    exact h.agree hdrop hlab hfree hroom hside hav hagree

theorem preserves_keep_zero (first : Source) (a : Cell) :
    Preserves amx .none (fun _ => True)
      [.plain (.get first .pri) a, .plain (.pushReg .pri) 0, .plain (.zeroReg .pri) 0,
        .plain (.pop .alt) 0]
      [.plain (.get first .alt) a, .plain (.zeroReg .pri) 0] where
  live := by
    intro lab out _ _
    simp
  agree := by
    intro lab out undef s s' _ _ hfree hroom _ hav h
    obtain ⟨(h1 : first.Avoids undef a s.frm), -⟩ := hav
    refine exitAgree_of
      (t := ⟨0, first.value a s.frm s.data, s.frm, s.stk, s.hea,
        s.data.store (s.stk - 4) (first.value a s.frm s.data)⟩)
      (u := ⟨0, first.value a s'.frm s'.data, s'.frm, s'.stk, s'.hea, s'.data⟩) ?_ rfl ?_
    · simp only [runCode_nil, runCode_plain, Plain.exec, State.push, State.pop, State.setReg,
        State.reg,
        Words.load_store_same, BitVec.sub_add_cancel]
    · exact {
        pri := fun _ => rfl
        alt := fun _ => h.value_agree h1
        frm := h.frm
        stk := h.stk
        hea := h.hea
        data := agreeOff_kept h hroom (by simp [Plain.exec, Plain.Defines,
          State.push, State.setReg]) rfl rfl rfl rfl }

theorem preserves_move (source : Source) (a : Cell) :
    Preserves amx .none (fun _ => True)
      [.plain (.pushReg .pri) 0, .plain (.get source .pri) a, .plain (.pop .alt) 0]
      [.plain (.move .alt) 0, .plain (.get source .pri) a] where
  live := by
    intro lab out _ _
    simp
  agree := by
    intro lab out undef s s' _ _ hfree hroom _ hav h
    obtain ⟨-, (h1 : source.Avoids undef a s.frm), -⟩ := hav
    have hkept := kept_value (v := s.pri) hroom hfree h1
    refine exitAgree_of
      (t := ⟨source.value a s.frm s.data, s.pri, s.frm, s.stk, s.hea,
        s.data.store (s.stk - 4) s.pri⟩)
      (u := ⟨source.value a s'.frm s'.data, s'.pri, s'.frm, s'.stk, s'.hea, s'.data⟩) ?_ rfl ?_
    · simp only [runCode_nil, runCode_plain, Plain.exec, State.push, State.pop, State.setReg,
        State.reg,
        Words.load_store_same, BitVec.sub_add_cancel]
      rw [← hkept]
    · exact {
        pri := fun _ => h.value_agree h1
        alt := fun _ => h.pri (by simp)
        frm := h.frm
        stk := h.stk
        hea := h.hea
        data := agreeOff_kept h hroom (by simp [Plain.exec, Plain.Defines,
          State.push, State.setReg]) rfl rfl rfl rfl }

theorem preserves_move_zero :
    Preserves amx .none (fun _ => True)
      [.plain (.pushReg .pri) 0, .plain (.zeroReg .pri) 0, .plain (.pop .alt) 0]
      [.plain (.move .alt) 0, .plain (.zeroReg .pri) 0] where
  live := by
    intro lab out _ _
    simp
  agree := by
    intro lab out undef s s' _ _ hfree hroom _ hav h
    refine exitAgree_of
      (t := ⟨0, s.pri, s.frm, s.stk, s.hea, s.data.store (s.stk - 4) s.pri⟩)
      (u := ⟨0, s'.pri, s'.frm, s'.stk, s'.hea, s'.data⟩) ?_ rfl ?_
    · simp only [runCode_nil, runCode_plain, Plain.exec, State.push, State.pop, State.setReg,
        State.reg,
        Words.load_store_same, BitVec.sub_add_cancel]
    · exact {
        pri := fun _ => rfl
        alt := fun _ => h.pri (by simp)
        frm := h.frm
        stk := h.stk
        hea := h.hea
        data := agreeOff_kept h hroom (by simp [Plain.exec, Plain.Defines,
          State.push, State.setReg]) rfl rfl rfl rfl }

theorem preserves_move_only :
    Preserves amx .none (fun _ => True) [.plain (.pushReg .pri) 0, .plain (.pop .alt) 0]
      [.plain (.move .alt) 0] where
  live := by
    intro lab out _ _
    simp
  agree := by
    intro lab out undef s s' _ _ hfree hroom _ hav h
    refine exitAgree_of
      (t := ⟨s.pri, s.pri, s.frm, s.stk, s.hea, s.data.store (s.stk - 4) s.pri⟩)
      (u := ⟨s'.pri, s'.pri, s'.frm, s'.stk, s'.hea, s'.data⟩) ?_ rfl ?_
    · simp only [runCode_nil, runCode_plain, Plain.exec, State.push, State.pop, State.setReg,
        State.reg,
        Words.load_store_same, BitVec.sub_add_cancel]
    · have hpri : s.pri = s'.pri := h.pri (by simp)
      exact {
        pri := fun _ => hpri
        alt := fun _ => hpri
        frm := h.frm
        stk := h.stk
        hea := h.hea
        data := agreeOff_kept h hroom (by simp [Plain.exec, Plain.Defines,
          State.push]) rfl rfl rfl rfl }

theorem preserves_chain (source : Source) (a : Cell) :
    Preserves amx .none (fun _ => True)
      [.plain (.move .pri) 0, .plain (.pushReg .pri) 0, .plain (.get source .pri) a,
        .plain (.pop .alt) 0]
      [.plain (.get source .pri) a] where
  live := by
    intro lab out _ _
    simp
  agree := by
    intro lab out undef s s' _ _ hfree hroom _ hav h
    obtain ⟨-, -, (h1 : source.Avoids undef a s.frm), -⟩ := hav
    have hkept := kept_value (v := s.alt) hroom hfree h1
    refine exitAgree_of
      (t := ⟨source.value a s.frm s.data, s.alt, s.frm, s.stk, s.hea,
        s.data.store (s.stk - 4) s.alt⟩)
      (u := ⟨source.value a s'.frm s'.data, s'.alt, s'.frm, s'.stk, s'.hea, s'.data⟩) ?_ rfl ?_
    · simp only [runCode_nil, runCode_plain, Plain.exec, State.push, State.pop, State.setReg,
        State.reg,
        Words.load_store_same, BitVec.sub_add_cancel]
      rw [← hkept]
    · exact {
        pri := fun _ => h.value_agree h1
        alt := fun _ => h.alt (by simp)
        frm := h.frm
        stk := h.stk
        hea := h.hea
        data := agreeOff_kept h hroom (by simp [Plain.exec, Plain.Defines,
          State.push, State.setReg]) rfl rfl rfl rfl }

end

/-- The operands of a relation taken the other way round. -/
def mirror : Relation → Relation
  | .eq => .eq
  | .neq => .neq
  | .less => .grtr
  | .leq => .geq
  | .grtr => .less
  | .geq => .leq
  | .sless => .sgrtr
  | .sleq => .sgeq
  | .sgrtr => .sless
  | .sgeq => .sleq

def negation : Relation → Relation
  | .eq => .neq
  | .neq => .eq
  | .less => .geq
  | .leq => .grtr
  | .grtr => .leq
  | .geq => .less
  | .sless => .sgeq
  | .sleq => .sgrtr
  | .sgrtr => .sleq
  | .sgeq => .sless

@[simp] theorem mirror_holds (t : Relation) (a b : Cell) : (mirror t).holds a b = t.holds b a := by
  cases t with
  | eq => exact Bool.beq_comm
  | neq => exact congrArg not Bool.beq_comm
  | _ => rfl

@[simp] theorem negation_holds (t : Relation) (a b : Cell) :
    (negation t).holds a b = !t.holds a b := by
  cases t with
  | eq => rfl
  | neq => exact (Bool.not_not _).symm
  | _ =>
      simp only [negation, Relation.holds, BitVec.ult, BitVec.ule, BitVec.slt, BitVec.sle]
      grind

theorem preserves_chain_end (t : Relation) :
    Preserves amx (.one .alt) (fun _ => True)
      [.plain .xchg 0, .plain (.relation t) 0, .plain (.swap .alt) 0, .plain (.operator .and) 0,
        .plain (.pop .alt) 0]
      [.plain (.relation (mirror t)) 0, .plain (.pop .alt) 0, .plain (.operator .and) 0] where
  live := by
    intro lab out _ _
    simp [Plain.reads, Plain.sets]
  agree := by
    intro lab out undef s s' hdrop _ hfree hroom _ hav h
    obtain ⟨-, -, (htop : Clear _ s.stk), -⟩ := hav
    have hclear : Clear undef s.stk :=
      clear_of_after (fun _ => id) (clear_of_after (fun _ => id) htop)
    have hload := h.data.load_eq hclear
    refine exitAgree_of
      (t := ⟨(if t.holds s.alt s.pri then 1 else 0) &&& s.data.load s.stk, s.pri, s.frm, s.stk + 4,
        s.hea, s.data.store s.stk s.pri⟩)
      (u := ⟨(if (mirror t).holds s'.pri s'.alt then 1 else 0) &&& s'.data.load s'.stk,
        s'.data.load s'.stk, s'.frm, s'.stk + 4, s'.hea, s'.data⟩) ?_ rfl ?_
    · simp only [runCode_nil, runCode_plain, Plain.exec, State.store, State.pop, State.setReg,
        State.reg,
        Operator.apply, Words.load_store_same]
    · have hpri : s.pri = s'.pri := h.pri (by simp [Plain.reads, Plain.sets])
      have halt : s.alt = s'.alt := h.alt (by simp [Plain.reads, Plain.sets])
      exact {
        pri := fun _ => by rw [mirror_holds, ← hpri, ← halt, hload, h.stk]
        alt := fun hlive => absurd ⟨rfl, hlive⟩ hdrop.2
        frm := h.frm
        stk := congrArg (· + 4) h.stk
        hea := h.hea
        data := agreeOff_popped h hroom (by simp [Plain.exec, Plain.Defines,
          State.store, State.setReg]) rfl rfl rfl rfl }

theorem test_zero (b : Bool) : ((if b then 1 else 0 : Cell) == 0) = !b := by
  cases b <;> rfl

theorem test_nonzero (b : Bool) : ((if b then 1 else 0 : Cell) != 0) = b := by
  cases b <;> rfl

theorem preserves_chain_jzer (t : Relation) (l : Cell) :
    Preserves amx (.one .alt) (fun _ => True)
      [.plain .xchg 0, .plain (.relation t) 0, .plain (.swap .alt) 0, .plain (.operator .and) 0,
        .plain (.pop .alt) 0, .branch .jzer l]
      [.plain (.relation (mirror t)) 0, .plain (.pop .alt) 0, .plain (.operator .and) 0,
        .branch .jzer l] where
  live := by
    intro lab out _ _
    simp [Plain.reads, Plain.sets]
  agree := by
    intro lab out undef s s' hdrop hlab hfree hroom _ hav h
    obtain ⟨-, -, (htop : Clear _ s.stk), -⟩ := hav
    have hclear : Clear undef s.stk :=
      clear_of_after (fun _ => id) (clear_of_after (fun _ => id) htop)
    have hload := h.data.load_eq hclear
    have hpri : s.pri = s'.pri := h.pri (by simp [Plain.reads, Plain.sets])
    have halt : s.alt = s'.alt := h.alt (by simp [Plain.reads, Plain.sets])
    have hdead := hdrop.union (hlab l (by simp))
    have hvalue : (if t.holds s.alt s.pri then 1 else 0) &&& s.data.load s.stk =
        (if (mirror t).holds s'.pri s'.alt then 1 else 0) &&& s'.data.load s'.stk := by
      rw [mirror_holds, ← hpri, ← halt, hload, h.stk]
    refine exitAgree_branch _
      (t := ⟨(if t.holds s.alt s.pri then 1 else 0) &&& s.data.load s.stk, s.pri, s.frm, s.stk + 4,
        s.hea, s.data.store s.stk s.pri⟩)
      (u := ⟨(if (mirror t).holds s'.pri s'.alt then 1 else 0) &&& s'.data.load s'.stk,
        s'.data.load s'.stk, s'.frm, s'.stk + 4, s'.hea, s'.data⟩)
      (l := l) ?_ ?_ (congrArg (· == 0) hvalue) ?_
    · simp only [runCode_nil, runCode_plain, runCode_branch, Plain.exec, State.store, State.pop,
        State.setReg, State.reg,
        Operator.apply, Words.load_store_same, Branch.taken]
      rfl
    · simp only [runCode_nil, runCode_plain, runCode_branch, Plain.exec, State.pop, State.setReg,
        Operator.apply, Branch.taken]
      rfl
    · exact {
        pri := fun _ => hvalue
        alt := fun hlive => absurd ⟨rfl, hlive⟩ hdead.2
        frm := h.frm
        stk := congrArg (· + 4) h.stk
        hea := h.hea
        data := agreeOff_popped h hroom (by simp [Plain.exec, Plain.Defines,
          State.store, State.setReg]) rfl rfl rfl rfl }

theorem preserves_swapped_jzer (t : Relation) (l : Cell) :
    Preserves amx .both (fun _ => True)
      [.plain .xchg 0, .plain (.relation t) 0, .branch .jzer l]
      [.branch (.test (negation (mirror t))) l] where
  live := by
    intro lab out _ _
    simp [Plain.reads, Plain.sets]
  agree := by
    intro lab out undef s s' hdrop hlab hfree hroom _ hav h
    have hpri : s.pri = s'.pri := h.pri (by simp [Plain.reads, Plain.sets])
    have halt : s.alt = s'.alt := h.alt (by simp [Plain.reads, Plain.sets])
    have hdead := hdrop.union (hlab l (by simp))
    refine exitAgree_branch _ (l := l) (c := !t.holds s.alt s.pri)
      (t := ⟨if t.holds s.alt s.pri then 1 else 0, s.pri, s.frm, s.stk, s.hea, s.data⟩) (u := s')
      ?_ ?_ (congrArg not (congrArg₂ t.holds halt hpri)) ?_
    · simp only [runCode_nil, runCode_plain, runCode_branch, Plain.exec, Branch.taken, test_zero]
    · simp only [runCode_nil, runCode_branch, Branch.taken, negation_holds, mirror_holds]
    · exact {
        pri := fun hlive => absurd ⟨rfl, hlive⟩ hdead.1
        alt := fun hlive => absurd ⟨rfl, hlive⟩ hdead.2
        frm := h.frm
        stk := h.stk
        hea := h.hea
        data := agreeOff_unwritten h (by simp [Plain.exec, Plain.Defines]) rfl
          rfl }

theorem preserves_swapped (t : Relation) :
    Preserves amx (.one .alt) (fun _ => True) [.plain .xchg 0, .plain (.relation t) 0]
      [.plain (.relation (mirror t)) 0] where
  live := by
    intro lab out hdrop _
    simp [Plain.reads, Plain.sets]
  agree := by
    intro lab out undef s s' hdrop _ hfree hroom _ hav h
    have hpri : s.pri = s'.pri := h.pri (by simp [Plain.reads, Plain.sets])
    have halt : s.alt = s'.alt := h.alt (by simp [Plain.reads, Plain.sets])
    refine exitAgree_of
      (t := ⟨if t.holds s.alt s.pri then 1 else 0, s.pri, s.frm, s.stk, s.hea, s.data⟩)
      (u := ⟨if (mirror t).holds s'.pri s'.alt then 1 else 0, s'.alt, s'.frm, s'.stk, s'.hea,
        s'.data⟩) rfl rfl ?_
    exact {
      pri := fun _ => by rw [mirror_holds, ← hpri, ← halt]
      alt := fun hlive => absurd ⟨rfl, hlive⟩ hdrop.2
      frm := h.frm
      stk := h.stk
      hea := h.hea
      data := agreeOff_unwritten h (by simp [Plain.exec, Plain.Defines]) rfl
        rfl }

theorem preserves_loads_xchg (first second : Source) (a b : Cell) :
    Preserves amx .none (fun _ => True)
      [.plain (.get first .pri) a, .plain (.get second .alt) b, .plain .xchg 0]
      [.plain (.get second .pri) b, .plain (.get first .alt) a] where
  live := by
    intro lab out _ _
    simp [Plain.reads, Plain.sets]
  agree := by
    intro lab out undef s s' _ _ hfree hroom _ hav h
    obtain ⟨(h1 : first.Avoids undef a s.frm), (h2 : second.Avoids undef b s.frm), -⟩ := hav
    refine exitAgree_of
      (t := ⟨second.value b s.frm s.data, first.value a s.frm s.data, s.frm, s.stk, s.hea, s.data⟩)
      (u := ⟨second.value b s'.frm s'.data, first.value a s'.frm s'.data, s'.frm, s'.stk, s'.hea,
        s'.data⟩) rfl rfl ?_
    exact {
      pri := fun _ => h.value_agree h2
      alt := fun _ => h.value_agree h1
      frm := h.frm
      stk := h.stk
      hea := h.hea
      data := agreeOff_unwritten h (by simp [Plain.exec, Plain.Defines]) rfl
        rfl }

/-! Array elements.  The base is kept on the stack while the index is loaded, checked and
scaled. -/

theorem guard_false {e : AmxError} {rest : Outcome} : guard false e s rest = rest := rfl

theorem guard_true {e : AmxError} {rest : Outcome} : guard true e s rest = .error (e, s) := rfl

theorem run_failed {op : Plain} {offs : Cell} {e : AmxError} {c : Bool} {rest : List Instr}
    (hexec : op.exec amx offs t = guard c e t (.ok u)) (hc : c = true) :
    runCode amx (.plain op offs :: rest) t = .error e t := by
  rw [runCode_plain, hexec, hc, guard_true]

theorem run_passed {op : Plain} {offs : Cell} {e : AmxError} {c : Bool} {rest : List Instr}
    (hexec : op.exec amx offs t = guard c e t (.ok u)) (hc : c = false) :
    runCode amx (.plain op offs :: rest) t = runCode amx rest u := by
  rw [runCode_plain, hexec, hc, guard_false]

theorem value_loadS (offs frm : Cell) (data : Words) :
    Source.loadS.value offs frm data = data.load (frm + offs) := rfl

/-- The state with the base on the stack and the index in PRI. -/
def indexing (first : Source) (a b : Cell) (s : State) : State :=
  ⟨s.data.load (s.frm + b), s.alt, s.frm, s.stk - 4, s.hea,
    s.data.store (s.stk - 4) (first.value a s.frm s.data)⟩

theorem run_indexing {first : Source} {a b : Cell} {rest : List Instr} (hroom : Room s)
    (hfree : ∀ x, s.Free x → undef x) (hb : Clear undef (s.frm + b)) :
    runCode amx (.plain (.get first .pri) a :: .plain (.pushReg .pri) 0 ::
      .plain (.get .loadS .pri) b :: rest) s = runCode amx rest (indexing first a b s) := by
  have hkept : (s.data.store (s.stk - 4) (first.value a s.frm s.data)).load (s.frm + b) =
      s.data.load (s.frm + b) :=
    load_store_of_clear hb ((within_first hroom).mono hfree)
  simp only [runCode_plain, Plain.exec, State.push, State.setReg, State.reg, value_loadS, indexing]
  rw [hkept]

theorem run_indexed (first : Source) (a b : Cell) (rest : List Instr) :
    runCode amx (.plain (.get first .alt) a :: .plain (.get .loadS .pri) b :: rest) s' =
      runCode amx rest
        ⟨s'.data.load (s'.frm + b), first.value a s'.frm s'.data, s'.frm, s'.stk, s'.hea,
        s'.data⟩ := by
  simp only [runCode_plain, Plain.exec, State.setReg, value_loadS]

theorem writes_push {r : Reg} {x : Cell} {rest : List Instr} (hrest : ∀ i ∈ rest, i.Silent)
    (h : Writes amx x (.plain (.pushReg r) 0 :: rest) s) : InWord (s.stk - 4) x := by
  simp only [writes_plain, Plain.exec, Plain.Defines] at h
  exact h.resolve_right (not_writes_of_silent hrest)

theorem free_push {x : Cell} (hroom : Room s) (h : (s.push v).Free x) : s.Free x := by
  have hlow : -2 ^ 31 ≤ s.hea.toInt := BitVec.le_toInt s.hea
  have hroom := hroom.1
  have hstk : (s.stk - 4).toInt = s.stk.toInt - 4 := toInt_sub_word (k := 4) (by decide) (by omega)
  obtain ⟨hlo, hhi⟩ := h
  refine ⟨hlo, ?_⟩
  rw [BitVec.slt_iff_toInt_lt] at hhi ⊢
  exact hhi.trans (by rw [State.push, hstk]; omega)

theorem outside_of_not_free {a : Cell} (h : ¬ s.Free a) : s.outside amx a = amx.stp.ule a := by
  rw [State.outside]
  cases hin : s.hea.sle a && a.slt s.stk with
  | false => rfl
  | true => exact absurd ((Bool.and_eq_true _ _).mp hin) h

theorem writes_indexing {first : Source} {a b x : Cell} {rest : List Instr}
    (hrest : ∀ i ∈ rest, i.Silent)
    (h : Writes amx x (.plain (.get first .pri) a :: .plain (.pushReg .pri) 0 ::
      .plain (.get .loadS .pri) b :: rest) s) : InWord (s.stk - 4) x := by
  simp only [writes_plain, Plain.exec, Plain.Defines, false_or] at h
  exact h.resolve_right (not_writes_of_silent hrest)

theorem writes_indexing_iff {first : Source} {a b x : Cell} {rest : List Instr} (hroom : Room s)
    (hfree : ∀ x, s.Free x → undef x) (hb : Clear undef (s.frm + b)) :
    Writes amx x (.plain (.get first .pri) a :: .plain (.pushReg .pri) 0 ::
      .plain (.get .loadS .pri) b :: rest) s ↔
      InWord (s.stk - 4) x ∨ Writes amx x rest (indexing first a b s) := by
  have hkept : (s.data.store (s.stk - 4) (first.value a s.frm s.data)).load (s.frm + b) =
      s.data.load (s.frm + b) :=
    load_store_of_clear hb ((within_first hroom).mono hfree)
  simp only [writes_plain, Plain.exec, Plain.Defines, false_or, State.push, State.setReg, State.reg,
    value_loadS, indexing, hkept]

theorem insert_bounds {drop : Regs} {first : Source} {a b : Cell} {rest rest' : List Instr}
    (h : Preserves amx drop (fun _ => True)
      (.plain (.get first .pri) a :: .plain (.pushReg .pri) 0 ::
        .plain (.get .loadS .pri) b :: rest)
      (.plain (.get first .alt) a :: .plain (.get .loadS .pri) b :: rest')) (c : Cell) :
    Preserves amx drop (fun _ => True)
      (.plain (.get first .pri) a :: .plain (.pushReg .pri) 0 :: .plain (.get .loadS .pri) b ::
        .plain .bounds c :: rest)
      (.plain (.get first .alt) a :: .plain (.get .loadS .pri) b :: .plain .bounds c :: rest') where
  live := by
    intro lab out hdrop hlab
    simp [Plain.reads, Plain.sets]
  agree := by
    intro lab out undef s s' hdrop hlab hfree hroom hside hav hagree
    obtain ⟨h1, h2, h3, hrest⟩ := hav
    have hb : Clear undef (s.frm + b) := h3
    have hkept : (s.data.store (s.stk - 4) (first.value a s.frm s.data)).load (s.frm + b) =
        s.data.load (s.frm + b) :=
      load_store_of_clear hb ((within_first hroom).mono hfree)
    have hindex : s.data.load (s.frm + b) = s'.data.load (s'.frm + b) := by
      rw [← hagree.frm, hagree.data.load_eq hb]
    cases hbound : c.ult (s.data.load (s.frm + b)) with
    | true =>
        refine exitAgree_error (e := .bounds) (t := indexing first a b s)
          (u := ⟨s'.data.load (s'.frm + b), first.value a s'.frm s'.data, s'.frm, s'.stk, s'.hea,
            s'.data⟩) ?_ ?_ ((agreeOff_store ((within_first hroom).mono hfree)).trans hagree.data)
        · rw [run_indexing hroom hfree hb, runCode_plain, Plain.exec, indexing]
          simp only [hbound, guard_true]
        · rw [run_indexed, runCode_plain, Plain.exec]
          simp only [← hindex, hbound, guard_true]
    | false =>
        have hskip : runCode amx (.plain .bounds c :: rest) (indexing first a b s) =
            runCode amx rest (indexing first a b s) := by
          rw [runCode_plain, Plain.exec, indexing]
          simp only [hbound, guard_false]
        have hwrites (x : Cell) : Writes amx x (.plain .bounds c :: rest) (indexing first a b s) ↔
            Writes amx x rest (indexing first a b s) := by
          rw [writes_plain, Plain.exec, indexing]
          simp only [hbound, guard_false, Plain.Defines, false_or]
        have hundef : undefinedAt amx undef
            (.plain (.get first .pri) a :: .plain (.pushReg .pri) 0 ::
              .plain (.get .loadS .pri) b :: .plain .bounds c :: rest) s =
            undefinedAt amx undef (.plain (.get first .pri) a :: .plain (.pushReg .pri) 0 ::
              .plain (.get .loadS .pri) b :: rest) s := by
          funext t x
          rw [undefinedAt, undefinedAt, writes_indexing_iff hroom hfree hb,
            writes_indexing_iff hroom hfree hb, hwrites]
        have hskip' : runCode amx (.plain .bounds c :: rest')
              ⟨s'.data.load (s'.frm + b), first.value a s'.frm s'.data, s'.frm, s'.stk, s'.hea,
                s'.data⟩ =
            runCode amx rest'
              ⟨s'.data.load (s'.frm + b), first.value a s'.frm s'.data, s'.frm, s'.stk,
              s'.hea, s'.data⟩ := by
          rw [runCode_plain, Plain.exec]
          simp only [← hindex, hbound, guard_false]
        have havoids : Avoids amx undef undef (.plain (.get first .pri) a ::
            .plain (.pushReg .pri) 0 :: .plain (.get .loadS .pri) b :: rest) s := by
          have hpass (t : State) (ht : t.pri = s.data.load (s.frm + b)) :
              Plain.bounds.exec amx c t = .ok t := by
            rw [Plain.exec, ht, hbound, guard_false]
          obtain ⟨-, hrest⟩ := hrest
          rw [hpass] at hrest
          · exact ⟨h1, h2, h3, Avoids.anti (fun _ => id) (fun x hx => Or.inl ⟨hx, id⟩) hrest⟩
          · exact hkept
        have hsame := h.agree hdrop hlab hfree hroom trivial havoids
          (hagree.live_anti (by simp [Plain.reads, Plain.sets]))
        rw [run_indexing hroom hfree hb, run_indexed] at hsame
        rw [run_indexing hroom hfree hb, run_indexed, hskip, hskip', hundef]
        exact hsame

theorem preserves_index_load (first : Source) (a b n : Cell) :
    Preserves amx .none (fun _ => True)
      [.plain (.get first .pri) a, .plain (.pushReg .pri) 0, .plain (.get .loadS .pri) b,
        .plain (.shlC .pri) n, .plain (.pop .alt) 0, .plain (.operator .add) 0, .plain .loadI 0]
      [.plain (.get first .alt) a, .plain (.get .loadS .pri) b, .plain .lidxB n] where
  live := by
    intro lab out _ _
    simp [Plain.reads, Plain.sets]
  agree := by
    intro lab out undef s s' _ _ hfree hroom _ hav h
    obtain ⟨(h1 : first.Avoids undef a s.frm), -,
        (h2 : Clear undef (s.frm + b)), -, -, -, hx, -⟩ := hav
    have hkept : (s.data.store (s.stk - 4) (first.value a s.frm s.data)).load (s.frm + b) =
        s.data.load (s.frm + b) :=
      load_store_of_clear h2 ((within_first hroom).mono hfree)
    have hclear : Clear undef
        (((s.data.store (s.stk - 4) (first.value a s.frm s.data)).load (s.frm + b) <<<
            shiftCount n) +
          (s.data.store (s.stk - 4) (first.value a s.frm s.data)).load (s.stk - 4)) := hx
    rw [hkept, Words.load_store_same] at hclear
    have hindex : s.data.load (s.frm + b) = s'.data.load (s'.frm + b) := by
      rw [← h.frm, h.data.load_eq h2]
    have hbase := h.value_agree h1
    have hrun : runCode amx [.plain (.get first .pri) a, .plain (.pushReg .pri) 0,
          .plain (.get .loadS .pri) b, .plain (.shlC .pri) n, .plain (.pop .alt) 0,
          .plain (.operator .add) 0, .plain .loadI 0] s =
        runCode amx [.plain .loadI 0]
          ⟨(s.data.load (s.frm + b) <<< shiftCount n) + first.value a s.frm s.data,
            first.value a s.frm s.data, s.frm, s.stk, s.hea,
            s.data.store (s.stk - 4) (first.value a s.frm s.data)⟩ := by
      rw [run_indexing hroom hfree h2]
      simp only [runCode_plain, Plain.exec, indexing, State.pop, State.setReg, State.reg,
        Operator.apply, Words.load_store_same, BitVec.sub_add_cancel]
    generalize hxdef : (s.data.load (s.frm + b) <<< shiftCount n) + first.value a s.frm s.data = x
      at hclear hrun
    have hx' : (s'.data.load (s'.frm + b) <<< shiftCount n) + first.value a s'.frm s'.data = x := by
      rw [← hxdef, hindex, hbase]
    have hstored : (s.data.store (s.stk - 4) (first.value a s.frm s.data)).load x =
        s'.data.load x := by
      rw [load_store_of_clear hclear ((within_first hroom).mono hfree), h.data.load_eq hclear]
    have houtside := h.outside_eq amx x
    cases hcheck : s.outside amx x with
    | true =>
        rw [hcheck] at houtside
        refine exitAgree_error (e := .memAccess)
          (t := ⟨x, first.value a s.frm s.data, s.frm, s.stk, s.hea,
            s.data.store (s.stk - 4) (first.value a s.frm s.data)⟩)
          (u := ⟨s'.data.load (s'.frm + b), first.value a s'.frm s'.data, s'.frm, s'.stk, s'.hea,
            s'.data⟩) ?_ ?_ ((agreeOff_store ((within_first hroom).mono hfree)).trans h.data)
        · rw [hrun]
          exact run_failed rfl hcheck
        · rw [run_indexed]
          refine run_failed rfl ?_
          rw [hx']
          exact houtside.symm
    | false =>
        rw [hcheck] at houtside
        refine exitAgree_of
          (t := ⟨(s.data.store (s.stk - 4) (first.value a s.frm s.data)).load x,
            first.value a s.frm s.data, s.frm, s.stk, s.hea,
            s.data.store (s.stk - 4) (first.value a s.frm s.data)⟩)
          (u := ⟨s'.data.load x, first.value a s'.frm s'.data, s'.frm, s'.stk, s'.hea, s'.data⟩)
          ?_ ?_ ?_
        · rw [hrun]
          exact run_passed rfl hcheck
        · rw [run_indexed]
          refine (run_passed rfl ?_).trans ?_
          · rw [hx']
            exact houtside.symm
          · rw [hx']
            rfl
        · exact {
            pri := fun _ => hstored
            alt := fun _ => hbase
            frm := h.frm
            stk := h.stk
            hea := h.hea
            data := agreeOff_kept h hroom
              (fun x => writes_indexing (by simp [Instr.Silent, Plain.Defines])) rfl rfl rfl rfl }

theorem preserves_index_addr (first : Source) (a b n : Cell) :
    Preserves amx .none (fun _ => True)
      [.plain (.get first .pri) a, .plain (.pushReg .pri) 0, .plain (.get .loadS .pri) b,
        .plain (.shlC .pri) n, .plain (.pop .alt) 0, .plain (.operator .add) 0]
      [.plain (.get first .alt) a, .plain (.get .loadS .pri) b, .plain .idxaddrB n] where
  live := by
    intro lab out _ _
    simp [Plain.reads, Plain.sets]
  agree := by
    intro lab out undef s s' _ _ hfree hroom _ hav h
    obtain ⟨(h1 : first.Avoids undef a s.frm), -, (h2 : Clear undef (s.frm + b)), -⟩ := hav
    have hindex : s.data.load (s.frm + b) = s'.data.load (s'.frm + b) := by
      rw [← h.frm, h.data.load_eq h2]
    have hbase := h.value_agree h1
    refine exitAgree_of
      (t := ⟨(s.data.load (s.frm + b) <<< shiftCount n) + first.value a s.frm s.data,
        first.value a s.frm s.data, s.frm, s.stk, s.hea,
        s.data.store (s.stk - 4) (first.value a s.frm s.data)⟩)
      (u := ⟨(s'.data.load (s'.frm + b) <<< shiftCount n) + first.value a s'.frm s'.data,
        first.value a s'.frm s'.data, s'.frm, s'.stk, s'.hea, s'.data⟩) ?_ ?_ ?_
    · rw [run_indexing hroom hfree h2]
      simp only [runCode_plain, runCode_nil, Plain.exec, indexing, State.pop, State.setReg,
        State.reg,
        Operator.apply, Words.load_store_same, BitVec.sub_add_cancel]
    · rw [run_indexed]
      simp only [runCode_plain, runCode_nil, Plain.exec]
    · exact {
        pri := fun _ => by rw [hindex, hbase]
        alt := fun _ => hbase
        frm := h.frm
        stk := h.stk
        hea := h.hea
        data := agreeOff_kept h hroom
          (fun x => writes_indexing (by simp [Instr.Silent, Plain.Defines])) rfl rfl rfl rfl }

theorem preserves_scale (n : Cell) :
    Preserves amx .none (fun _ => True)
      [.plain (.shlC .pri) n, .plain (.pop .alt) 0, .plain (.operator .add) 0]
      [.plain (.pop .alt) 0, .plain .idxaddrB n] where
  live := by
    intro lab out _ _
    simp [Plain.reads, Plain.sets]
  agree := by
    intro lab out undef s s' _ _ hfree hroom _ hav h
    obtain ⟨-, (htop : Clear _ s.stk), -⟩ := hav
    have hload := h.data.load_eq (clear_of_after (fun _ => id) htop)
    have hpri : s.pri = s'.pri := h.pri (by simp [Plain.reads, Plain.sets])
    refine exitAgree_of
      (t := ⟨(s.pri <<< shiftCount n) + s.data.load s.stk, s.data.load s.stk, s.frm, s.stk + 4,
        s.hea, s.data⟩)
      (u := ⟨(s'.pri <<< shiftCount n) + s'.data.load s'.stk, s'.data.load s'.stk, s'.frm,
        s'.stk + 4, s'.hea, s'.data⟩) rfl rfl ?_
    exact {
      pri := fun _ => by rw [hpri, hload, h.stk]
      alt := fun _ => by rw [hload, h.stk]
      frm := h.frm
      stk := congrArg (· + 4) h.stk
      hea := h.hea
      data := agreeOff_unwritten h (by simp [Plain.exec, Plain.Defines]) rfl rfl }

theorem replace_last (block : List Instr) {drop : Regs} {side : State → Prop} {op op' : Plain}
    {n n' : Cell} (h : Preserves amx drop side find (block ++ [.plain op n]))
    (hexec : op.exec amx n = op'.exec amx n') (hreads : op.reads = op'.reads)
    (hsets : op.sets = op'.sets) : Preserves amx drop side find (block ++ [.plain op' n']) where
  live := by
    intro lab out hdrop hlab
    have hsame : ∀ pre : List Instr, liveIn lab out (pre ++ [.plain op' n']) =
        liveIn lab out (pre ++ [.plain op n]) := by
      intro pre
      induction pre with
      | nil => simp [hreads, hsets]
      | cons i rest ih =>
          cases i with
          | plain _ _ => rw [List.cons_append, List.cons_append, liveIn, liveIn, ih]
          | branch b l => cases b <;> simp only [List.cons_append, liveIn, ih]
    rw [hsame]
    exact h.live hdrop hlab
  agree := by
    intro lab out undef s s' hdrop hlab hfree hroom hside hav hagree
    have hsame : ∀ (pre : List Instr) (t : State), runCode amx (pre ++ [.plain op' n']) t =
        runCode amx (pre ++ [.plain op n]) t := by
      intro pre
      induction pre with
      | nil =>
          intro t
          rw [List.nil_append, List.nil_append, runCode_plain, runCode_plain, hexec]
      | cons i rest ih =>
          intro t
          rw [List.cons_append, List.cons_append, runCode, runCode]
          cases i.exec amx t with
          | fall t => exact ih t
          | _ => rfl
    rw [hsame]
    exact h.agree hdrop hlab hfree hroom hside hav hagree

theorem scale_four (v : Cell) : v <<< shiftCount 2 = v * 4 :=
  BitVec.shiftLeft_eq_mul_twoPow v 2

theorem lidx_exec {n : Cell} (hn : n = 2) : Plain.lidxB.exec amx n = Plain.lidx.exec amx 0 := by
  funext s
  rw [hn, Plain.exec, Plain.exec]
  simp only [scale_four]

theorem idxaddr_exec {n : Cell} (hn : n = 2) :
    Plain.idxaddrB.exec amx n = Plain.idxaddr.exec amx 0 := by
  funext s
  rw [hn, Plain.exec, Plain.exec]
  simp only [scale_four]

theorem preserves_move_loadI :
    Preserves amx .none (fun _ => True)
      [.plain (.pushReg .pri) 0, .plain .loadI 0, .plain (.pop .alt) 0]
      [.plain (.move .alt) 0, .plain .loadI 0] where
  live := by
    intro lab out _ _
    simp [Plain.reads, Plain.sets]
  agree := by
    intro lab out undef s s' _ _ hfree hroom _ hav h
    obtain ⟨-, (h1 : Clear undef s.pri), -⟩ := hav
    have hpri : s.pri = s'.pri := h.pri (by simp [Plain.reads, Plain.sets])
    have hstored : (s.data.store (s.stk - 4) s.pri).load s.pri = s'.data.load s'.pri := by
      rw [load_store_of_clear h1 ((within_first hroom).mono hfree), ← hpri, h.data.load_eq h1]
    -- the slot of the saved register is the only address that the two checks see differently
    have hnot : ¬ s.Free s.pri := fun hin => h1.1 (hfree _ hin)
    have hcheck : (s.push s.pri).outside amx s.pri = s'.outside amx s'.pri := by
      rw [outside_of_not_free fun hin => hnot (free_push hroom hin), ← hpri, ← h.outside_eq,
        outside_of_not_free hnot]
    have hpush : runCode amx [.plain (.pushReg .pri) 0, .plain .loadI 0, .plain (.pop .alt) 0] s =
        runCode amx [.plain .loadI 0, .plain (.pop .alt) 0] (s.push s.pri) :=
          runCode_plain _ _ _ _ _
    have hmove : runCode amx [.plain (.move .alt) 0, .plain .loadI 0] s' =
        runCode amx [.plain .loadI 0] ⟨s'.pri, s'.pri, s'.frm, s'.stk, s'.hea, s'.data⟩ :=
      runCode_plain _ _ _ _ _
    cases hfail : (s.push s.pri).outside amx s.pri with
    | true =>
        refine exitAgree_error (e := .memAccess) (t := s.push s.pri)
          (u := ⟨s'.pri, s'.pri, s'.frm, s'.stk, s'.hea, s'.data⟩) ?_ ?_
          ((agreeOff_store ((within_first hroom).mono hfree)).trans h.data)
        · rw [hpush]
          exact run_failed rfl hfail
        · rw [hmove]
          exact run_failed rfl (hcheck.symm.trans hfail)
    | false =>
        refine exitAgree_of
          (t := ⟨(s.data.store (s.stk - 4) s.pri).load s.pri, s.pri, s.frm, s.stk, s.hea,
            s.data.store (s.stk - 4) s.pri⟩)
          (u := ⟨s'.data.load s'.pri, s'.pri, s'.frm, s'.stk, s'.hea, s'.data⟩) ?_ ?_ ?_
        · rw [hpush]
          refine (run_passed rfl hfail).trans ?_
          simp only [runCode_plain, runCode_nil, Plain.exec, State.push, State.pop, State.setReg,
            Words.load_store_same, BitVec.sub_add_cancel]
        · rw [hmove]
          exact run_passed rfl (hcheck.symm.trans hfail)
        · exact {
            pri := fun _ => hstored
            alt := fun _ => hpri
            frm := h.frm
            stk := h.stk
            hea := h.hea
            data := agreeOff_kept h hroom
              (fun x => writes_push (by simp [Instr.Silent, Plain.Defines])) rfl rfl rfl rfl }

theorem agree_pushed {x y : Cell} (pri alt : Cell) (h : Agree undef live s s')
    (hdead : ¬ out.pri ∧ ¬ out.alt)
    (hwrites : ∀ z, Writes amx z find s → InWord (s.stk - 4) z ∨ InWord (s.stk - 4 - 4) z)
    (ht : t = ⟨pri, alt, s.frm, s.stk - 4 - 4, s.hea,
      (s.data.store (s.stk - 4) x).store (s.stk - 4 - 4) y⟩) :
    Agree (undefinedAt amx undef find s t) out t ((s'.push x).push y) := by
  subst ht
  have hdata := (h.data.store_word (s.stk - 4) x).store_word (s.stk - 4 - 4) y
  exact {
    pri := fun hlive => absurd hlive hdead.1
    alt := fun hlive => absurd hlive hdead.2
    frm := h.frm
    stk := congrArg (· - 4 - 4) h.stk
    hea := h.hea
    data := by
      rw [State.push, State.push, ← h.stk]
      exact hdata.mono fun z hz =>
        Or.inl ⟨hz.1.1, fun hw => (hwrites z hw).elim hz.1.2 hz.2⟩ }

theorem pri_dead (h : (Regs.one .pri).Disjoint out) : out.pri = false :=
  Bool.eq_false_iff.mpr fun hp => h.1 ⟨rfl, hp⟩

theorem alt_dead (h : (Regs.one .alt).Disjoint out) : out.alt = false :=
  Bool.eq_false_iff.mpr fun ha => h.2 ⟨rfl, ha⟩

theorem both_disjoint (h : Regs.both.Disjoint out) : ¬ out.pri ∧ ¬ out.alt :=
  ⟨fun hp => h.1 ⟨rfl, hp⟩, fun ha => h.2 ⟨rfl, ha⟩⟩

theorem value_pushed {source : Source} {offs : Cell} (h : Agree undef live s s') (hroom : Room s)
    (hfree : ∀ x, s.Free x → undef x) (hav : source.Avoids undef offs s.frm) :
    source.value offs s'.frm (s'.data.store (s'.stk - 4) v) = source.value offs s.frm s.data := by
  rw [← h.frm, ← h.stk,
    ← Source.value_agree (h.data.store (s.stk - 4) v) hav, kept_value hroom hfree hav]

theorem preserves_pushes (first second : Source) (a b : Cell) :
    Preserves amx .both (fun _ => True)
      [.plain (.get first .pri) a, .plain (.get second .alt) b, .plain (.pushReg .pri) 0,
        .plain (.pushReg .alt) 0]
      [.plain (.push first) a, .plain (.push second) b] where
  live := by
    intro lab out hdrop _
    obtain ⟨hp, ha⟩ := both_disjoint hdrop
    simp [Plain.reads, Plain.sets, hp, ha]
  agree := by
    intro lab out undef s s' hdrop _ hfree hroom _ hav h
    obtain ⟨(h1 : first.Avoids undef a s.frm), (h2 : second.Avoids undef b s.frm), -⟩ := hav
    refine exitAgree_of
      (u := (s'.push (first.value a s.frm s.data)).push (second.value b s.frm s.data)) ?_ ?_
      (agree_pushed (first.value a s.frm s.data) (second.value b s.frm s.data) h
        (both_disjoint hdrop) ?_ rfl)
    · simp only [runCode_plain, runCode_nil, Plain.exec, State.push, State.setReg, State.reg]
    · simp only [runCode_plain, runCode_nil, Plain.exec]
      rw [← h.value_agree h1]
      exact congrArg (fun w => Exit.fall (State.push _ w)) (value_pushed h hroom hfree h2)
    · simp [Plain.exec, Plain.Defines, State.push, State.setReg]

theorem preserves_pushes_rev (first second : Source) (a b : Cell) :
    Preserves amx .both (fun _ => True)
      [.plain (.get first .pri) a, .plain (.get second .alt) b, .plain (.pushReg .alt) 0,
        .plain (.pushReg .pri) 0]
      [.plain (.push second) b, .plain (.push first) a] where
  live := by
    intro lab out hdrop _
    obtain ⟨hp, ha⟩ := both_disjoint hdrop
    simp [Plain.reads, Plain.sets, hp, ha]
  agree := by
    intro lab out undef s s' hdrop _ hfree hroom _ hav h
    obtain ⟨(h1 : first.Avoids undef a s.frm), (h2 : second.Avoids undef b s.frm), -⟩ := hav
    refine exitAgree_of
      (u := (s'.push (second.value b s.frm s.data)).push (first.value a s.frm s.data)) ?_ ?_
      (agree_pushed (first.value a s.frm s.data) (second.value b s.frm s.data) h
        (both_disjoint hdrop) ?_ rfl)
    · simp only [runCode_plain, runCode_nil, Plain.exec, State.push, State.setReg, State.reg]
    · simp only [runCode_plain, runCode_nil, Plain.exec]
      rw [← h.value_agree h2]
      exact congrArg (fun w => Exit.fall (State.push _ w)) (value_pushed h hroom hfree h1)
    · simp [Plain.exec, Plain.Defines, State.push, State.setReg]

theorem preserves_param (source : Source) (a : Cell) :
    Preserves amx (.one .pri) (fun _ => True)
      [.plain (.get source .pri) a, .plain (.pushReg .pri) 0] [.plain (.push source) a] where
  live := by
    intro lab out hdrop _
    simp [Plain.reads, Plain.sets, pri_dead hdrop]
  agree := by
    intro lab out undef s s' hdrop _ hfree hroom _ hav h
    obtain ⟨(h1 : source.Avoids undef a s.frm), -⟩ := hav
    refine exitAgree_of
      (t := ⟨source.value a s.frm s.data, s.alt, s.frm, s.stk - 4, s.hea,
        s.data.store (s.stk - 4) (source.value a s.frm s.data)⟩)
      (u := s'.push (source.value a s.frm s.data)) rfl ?_ ?_
    · simp only [runCode_plain, runCode_nil, Plain.exec]
      rw [← h.value_agree h1]
    · exact {
        pri := fun hlive => absurd ⟨rfl, hlive⟩ hdrop.1
        alt := fun hlive => h.alt (by simp [Plain.reads, Plain.sets, hlive])
        frm := h.frm
        stk := congrArg (· - 4) h.stk
        hea := h.hea
        data := agreeOff_stored h (by simp [Plain.exec, Plain.Defines, State.setReg]) rfl
          (by rw [State.push, ← h.stk]) }

theorem preserves_param_zero {n : Cell} (hn : n = 0) :
    Preserves amx (.one .pri) (fun _ => True)
      [.plain (.zeroReg .pri) 0, .plain (.pushReg .pri) 0] [.plain (.push .const) n] where
  live := by
    intro lab out hdrop _
    simp [Plain.reads, Plain.sets, pri_dead hdrop]
  agree := by
    intro lab out undef s s' hdrop _ hfree hroom _ hav h
    subst hn
    refine exitAgree_of
      (t := ⟨0, s.alt, s.frm, s.stk - 4, s.hea, s.data.store (s.stk - 4) 0⟩)
      (u := s'.push 0) rfl rfl ?_
    exact {
      pri := fun hlive => absurd ⟨rfl, hlive⟩ hdrop.1
      alt := fun hlive => h.alt (by simp [Plain.reads, Plain.sets, hlive])
      frm := h.frm
      stk := congrArg (· - 4) h.stk
      hea := h.hea
      data := agreeOff_stored h (by simp [Plain.exec, Plain.Defines, State.setReg]) rfl
        (by rw [State.push, ← h.stk]) }

theorem preserves_push_alt :
    Preserves amx (.one .pri) (fun _ => True)
      [.plain (.move .pri) 0, .plain (.pushReg .pri) 0] [.plain (.pushReg .alt) 0] where
  live := by
    intro lab out hdrop _
    simp [Plain.reads, Plain.sets, pri_dead hdrop]
  agree := by
    intro lab out undef s s' hdrop _ hfree hroom _ hav h
    have halt : s.alt = s'.alt := h.alt (by simp [Plain.reads, Plain.sets])
    refine exitAgree_of
      (t := ⟨s.alt, s.alt, s.frm, s.stk - 4, s.hea, s.data.store (s.stk - 4) s.alt⟩)
      (u := s'.push s'.alt) rfl rfl ?_
    exact {
      pri := fun hlive => absurd ⟨rfl, hlive⟩ hdrop.1
      alt := fun _ => halt
      frm := h.frm
      stk := congrArg (· - 4) h.stk
      hea := h.hea
      data := agreeOff_stored h (by simp [Plain.exec, Plain.Defines]) rfl
        (by rw [State.push, ← h.stk, ← halt]) }

/-! Operators with a constant operand. -/

theorem preserves_const {op op' : Plain} {a c : Cell} {f : Cell → Cell → Cell}
    (hexec : ∀ t : State, op.exec amx 0 t = .ok { t with pri := f t.pri t.alt })
    (hexec' : ∀ t : State, op'.exec amx c t = .ok { t with pri := f t.pri a })
    (hreads : op.reads = .both) (hreads' : op'.reads = .one .pri) (hsets : op.sets = .one .pri)
    (hsets' : op'.sets = .one .pri) (hdef : ∀ s x, ¬ op.Defines 0 s x) :
    Preserves amx (.one .alt) (fun _ => True)
      [.plain (.get .const .alt) a, .plain op 0] [.plain op' c] where
  live := by
    intro lab out hdrop _
    have hgetSets : (Plain.get .const .alt).sets = .one .alt := rfl
    have hgetReads : (Plain.get .const .alt).reads = .none := rfl
    simp [hreads, hreads', hsets, hsets', hgetSets, hgetReads, alt_dead hdrop]
  agree := by
    intro lab out undef s s' hdrop _ hfree hroom _ hav h
    have hgetSets : (Plain.get .const .alt).sets = .one .alt := rfl
    have hpri : s.pri = s'.pri := h.pri (by simp [hreads, hsets, hgetSets])
    refine exitAgree_of (t := { s with pri := f s.pri a, alt := a })
      (u := { s' with pri := f s'.pri a }) ?_ ?_ ?_
    · rw [runCode_plain, Plain.exec]
      simp only [State.setReg, Source.value, runCode_plain, hexec, runCode_nil]
    · rw [runCode_plain, hexec']
      rfl
    · exact {
        pri := fun _ => congrArg (f · a) hpri
        alt := fun hlive => absurd ⟨rfl, hlive⟩ hdrop.2
        frm := h.frm
        stk := h.stk
        hea := h.hea
        data := agreeOff_unwritten h
          (fun x => not_writes_of_silent
            (List.forall_mem_cons.mpr ⟨fun _ _ => id, List.forall_mem_cons.mpr ⟨hdef, by simp⟩⟩))
          rfl rfl }

theorem preserves_add (a : Cell) :
    Preserves amx (.one .alt) (fun _ => True)
      [.plain (.get .const .alt) a, .plain (.operator .add) 0] [.plain .addC a] :=
  preserves_const (f := fun x y => x + y) (fun _ => rfl) (fun _ => rfl) rfl rfl rfl rfl
    fun _ _ => id

theorem preserves_sub (a : Cell) :
    Preserves amx (.one .alt) (fun _ => True)
      [.plain (.get .const .alt) a, .plain (.operator .sub) 0] [.plain .addC (-a)] :=
  preserves_const (f := fun x y => x - y) (fun _ => rfl)
    (fun t => by rw [Plain.exec, BitVec.sub_eq_add_neg]) rfl rfl rfl rfl fun _ _ => id

theorem preserves_smul (a : Cell) :
    Preserves amx (.one .alt) (fun _ => True)
      [.plain (.get .const .alt) a, .plain (.operator .smul) 0] [.plain .smulC a] :=
  preserves_const (f := fun x y => x * y) (fun _ => rfl) (fun _ => rfl) rfl rfl rfl rfl
    fun _ _ => id

theorem preserves_eq (a : Cell) :
    Preserves amx (.one .alt) (fun _ => True)
      [.plain (.get .const .alt) a, .plain (.relation .eq) 0] [.plain (.eqC .pri) a] :=
  preserves_const (f := fun x y => if x == y then 1 else 0) (fun _ => rfl)
    (fun t => by by_cases h : t.pri = a <;> simp [Plain.exec, State.reg, h])
    rfl rfl rfl rfl fun _ _ => id

theorem preserves_sub_alt (source : Source) (a b : Cell) :
    Preserves amx (.one .alt) (fun _ => True)
      [.plain (.get .const .pri) a, .plain (.get source .alt) b, .plain (.operator .subAlt) 0]
      [.plain (.get source .pri) b, .plain .addC (-a)] where
  live := by
    intro lab out hdrop _
    simp [Plain.reads, Plain.sets, alt_dead hdrop]
  agree := by
    intro lab out undef s s' hdrop _ hfree hroom _ hav h
    obtain ⟨-, (h1 : source.Avoids undef b s.frm), -⟩ := hav
    refine exitAgree_of
      (t := ⟨source.value b s.frm s.data - a, source.value b s.frm s.data, s.frm, s.stk, s.hea,
        s.data⟩)
      (u := ⟨source.value b s'.frm s'.data + -a, s'.alt, s'.frm, s'.stk, s'.hea, s'.data⟩)
      rfl rfl ?_
    exact {
      pri := fun _ => by rw [BitVec.sub_eq_add_neg, h.value_agree h1]
      alt := fun hlive => absurd ⟨rfl, hlive⟩ hdrop.2
      frm := h.frm
      stk := h.stk
      hea := h.hea
      data := agreeOff_unwritten h
        (fun x => not_writes_of_silent (by simp [Instr.Silent, Plain.Defines])) rfl rfl }

theorem preserves_add_add (a b : Cell) :
    Preserves amx .none (fun _ => True) [.plain .addC a, .plain .addC b]
      [.plain .addC (a + b)] where
  live := by
    intro lab out _ _
    simp [Plain.reads, Plain.sets]
  agree := by
    intro lab out undef s s' _ _ hfree hroom _ hav h
    have hpri : s.pri = s'.pri := h.pri (by simp [Plain.reads, Plain.sets])
    refine exitAgree_of (t := { s with pri := s.pri + a + b })
      (u := { s' with pri := s'.pri + (a + b) })
      rfl rfl ?_
    exact {
      pri := fun _ => by rw [hpri, BitVec.add_assoc]
      alt := fun hlive => h.alt (by simp [Plain.reads, Plain.sets, hlive])
      frm := h.frm
      stk := h.stk
      hea := h.hea
      data := agreeOff_unwritten h
        (fun x => not_writes_of_silent (by simp [Instr.Silent, Plain.Defines])) rfl rfl }

theorem preserves_zero (r : Reg) {n : Cell} (hn : n = 0) :
    Preserves amx .none (fun _ => True) [.plain (.get .const r) n] [.plain (.zeroReg r) 0] where
  live := by
    intro lab out _ _
    cases r <;> simp [Plain.reads, Plain.sets]
  agree := by
    intro lab out undef s s' _ _ hfree hroom _ hav h
    subst hn
    refine exitAgree_of (t := s.setReg r 0) (u := s'.setReg r 0) rfl rfl ?_
    refine Agree.setReg ?_ 0
    exact (h.live_anti (by cases r <;> simp [Plain.reads, Plain.sets])).subset
      fun x hx => Or.inl ⟨hx, not_writes_of_silent (by simp [Instr.Silent, Plain.Defines])⟩

/-! Comparisons and jumps. -/

theorem preserves_jzer (t : Relation) (l : Cell) :
    Preserves amx (.one .pri) (fun _ => True)
      [.plain (.relation t) 0, .branch .jzer l] [.branch (.test (negation t)) l] where
  live := by
    intro lab out hdrop hlab
    simp [Plain.reads, Plain.sets, pri_dead hdrop, pri_dead (hlab l (by simp))]
  agree := by
    intro lab out undef s s' hdrop hlab hfree hroom _ hav h
    have hpri : s.pri = s'.pri := h.pri (by simp [Plain.reads, Plain.sets])
    have halt : s.alt = s'.alt := h.alt (by simp [Plain.reads, Plain.sets])
    have hdead := hdrop.union (hlab l (by simp))
    refine exitAgree_branch _ (l := l) (c := !t.holds s.pri s.alt)
      (t := { s with pri := if t.holds s.pri s.alt then 1 else 0 }) (u := s')
      ?_ ?_ (congrArg not (congrArg₂ t.holds hpri halt)) ?_
    · simp only [runCode_nil, runCode_plain, runCode_branch, Plain.exec, Branch.taken, test_zero]
    · simp only [runCode_nil, runCode_branch, Branch.taken, negation_holds]
    · exact {
        pri := fun hlive => absurd ⟨rfl, hlive⟩ hdead.1
        alt := fun _ => halt
        frm := h.frm
        stk := h.stk
        hea := h.hea
        data := agreeOff_unwritten h
          (fun x => not_writes_of_silent (by simp [Instr.Silent, Plain.Defines])) rfl rfl }

theorem preserves_jnz (t : Relation) (l : Cell) :
    Preserves amx (.one .pri) (fun _ => True)
      [.plain (.relation t) 0, .branch .jnz l] [.branch (.test t) l] where
  live := by
    intro lab out hdrop hlab
    simp [Plain.reads, Plain.sets, pri_dead hdrop, pri_dead (hlab l (by simp))]
  agree := by
    intro lab out undef s s' hdrop hlab hfree hroom _ hav h
    have hpri : s.pri = s'.pri := h.pri (by simp [Plain.reads, Plain.sets])
    have halt : s.alt = s'.alt := h.alt (by simp [Plain.reads, Plain.sets])
    have hdead := hdrop.union (hlab l (by simp))
    refine exitAgree_branch _ (l := l) (c := t.holds s.pri s.alt)
      (t := { s with pri := if t.holds s.pri s.alt then 1 else 0 }) (u := s')
      ?_ ?_ (congrArg₂ t.holds hpri halt) ?_
    · simp only [runCode_nil, runCode_plain, runCode_branch, Plain.exec, Branch.taken, test_nonzero]
    · rw [runCode_branch, runCode_nil]
      rfl
    · exact {
        pri := fun hlive => absurd ⟨rfl, hlive⟩ hdead.1
        alt := fun _ => halt
        frm := h.frm
        stk := h.stk
        hea := h.hea
        data := agreeOff_unwritten h
          (fun x => not_writes_of_silent (by simp [Instr.Silent, Plain.Defines])) rfl rfl }

theorem preserves_test_zero {t : Relation} {b : Branch} (l : Cell)
    (htaken : ∀ u : State, b.taken u = t.holds u.pri 0) (hreads : b.reads = .one .pri)
    (hjump : b ≠ .jump) :
    Preserves amx (.one .alt) (fun _ => True)
      [.plain (.zeroReg .alt) 0, .branch (.test t) l] [.branch b l] where
  live := by
    intro lab out hdrop hlab
    cases b with
    | jump => exact absurd rfl hjump
    | _ => simp_all [Plain.reads, Plain.sets, alt_dead hdrop, alt_dead (hlab l (by simp))]
  agree := by
    intro lab out undef s s' hdrop hlab hfree hroom _ hav h
    have hpri : s.pri = s'.pri := h.pri (by simp [Plain.reads, Plain.sets])
    have hdead := hdrop.union (hlab l (by simp))
    refine exitAgree_branch (b.taken s') (l := l) (c := t.holds s.pri 0)
      (t := { s with alt := 0 }) (u := s') ?_ ?_ ?_ ?_
    · rw [runCode_plain, Plain.exec]
      change runCode amx [.branch (.test t) l] (s.setReg .alt 0) = _
      rw [runCode_branch, runCode_nil]
      rfl
    · rw [runCode_branch, runCode_nil]
    · rw [htaken, hpri]
    · exact {
        pri := fun _ => hpri
        alt := fun hlive => absurd ⟨rfl, hlive⟩ hdead.2
        frm := h.frm
        stk := h.stk
        hea := h.hea
        data := agreeOff_unwritten h
          (fun x => not_writes_of_silent (by simp [Instr.Silent, Plain.Defines])) rfl rfl }

/-! Values that are loaded but not read. -/

theorem get_sets (source : Source) (r : Reg) : (Plain.get source r).sets = .one r := rfl

theorem get_reads (source : Source) (r : Reg) : (Plain.get source r).reads = .none := rfl

theorem preserves_then_load (op : Plain) (source : Source) (a b : Cell) :
    Preserves amx (.one .pri) (fun _ => True)
      [.plain op a, .plain (.get source .pri) b] [.plain op a] where
  live := by
    intro lab out hdrop _
    simp [get_sets, get_reads, pri_dead hdrop]
  agree := by
    intro lab out undef s s' hdrop _ hfree hroom _ hav h
    have hlive : (op.liveIn out).Sub
        (liveIn lab out [.plain op a, .plain (.get source .pri) b]) := by
      simp [get_sets, get_reads, pri_dead hdrop]
    obtain ⟨e, t, u, ht, hu, hdata⟩ | ⟨t, u, ht, hu, hout⟩ :=
      OutcomeAgree.cases (@exec_agree _ _ _ _ _ amx _ (h.live_anti hlive) hav.1)
    · exact exitAgree_error (by rw [runCode_plain, ht]) (by rw [runCode_plain, hu]) hdata
    · refine exitAgree_of (t := t.setReg .pri (source.value b t.frm t.data)) (u := u) ?_ ?_ ?_
      · rw [runCode_plain, ht]
        rfl
      · rw [runCode_plain, hu]
        rfl
      · refine {
          pri := fun hlive => absurd ⟨rfl, hlive⟩ hdrop.1
          alt := hout.alt
          frm := hout.frm
          stk := hout.stk
          hea := hout.hea
          data := hout.data.mono fun x hundef => Or.inl ⟨hundef.1, ?_⟩ }
        rw [writes_plain, ht]
        exact fun hw => hw.elim hundef.2
          (not_writes_of_silent (by simp [Instr.Silent, Plain.Defines]))

theorem preserves_load_then {op : Plain} (source : Source) (a b : Cell)
    (hreads : op.reads.pri = false) :
    Preserves amx (.one .pri) (fun _ => True)
      [.plain (.get source .pri) b, .plain op a] [.plain op a] where
  live := by
    intro lab out hdrop _
    simp [get_sets, get_reads, pri_dead hdrop, hreads]
  agree := by
    intro lab out undef s s' hdrop _ hfree hroom _ hav h
    have hagree : Agree undef (op.liveIn out) (s.setReg .pri (source.value b s.frm s.data)) s' := {
      pri := fun hlive => by simp [pri_dead hdrop, hreads] at hlive
      alt := fun hlive => h.alt (by simpa [get_sets, get_reads] using hlive)
      frm := h.frm
      stk := h.stk
      hea := h.hea
      data := h.data }
    have hav' : op.Avoids undef undef a (s.setReg .pri (source.value b s.frm s.data)) :=
      Plain.Avoids.anti (fun _ => id) (fun x hx => Or.inl ⟨hx, id⟩) hav.2.1
    have hfind : runCode amx [.plain (.get source .pri) b, .plain op a] s =
        runCode amx [.plain op a] (s.setReg .pri (source.value b s.frm s.data)) := runCode_plain ..
    obtain ⟨e, t, u, ht, hu, hdata⟩ | ⟨t, u, ht, hu, hout⟩ :=
      OutcomeAgree.cases (@exec_agree _ _ _ _ _ amx _ hagree hav')
    · exact exitAgree_error (by rw [hfind, runCode_plain, ht]) (by rw [runCode_plain, hu]) hdata
    · refine exitAgree_of (t := t) (u := u) (by rw [hfind, runCode_plain, ht]; rfl)
        (by rw [runCode_plain, hu]; rfl) ?_
      refine hout.subset fun x hundef => Or.inl ⟨hundef.1, ?_⟩
      rw [writes_plain]
      refine fun hw => hw.elim id fun hw => ?_
      have hop := writes_plain.mp hw
      rw [ht] at hop
      exact hundef.2 (hop.resolve_right writes_nil)

theorem preserves_store_zero {first store clear : Plain} {a c : Cell}
    {f : Cell → Cell} (hfirst : ∀ t : State, first.exec amx c t = .ok { t with pri := 0 })
    (hstore : ∀ t : State, store.exec amx a t = .ok (t.store (f t.frm) t.pri))
    (hclear : ∀ t : State, clear.exec amx a t = .ok (t.store (f t.frm) 0))
    (hfirstReads : first.reads = .none) (hfirstSets : first.sets = .one .pri)
    (hstoreReads : store.reads = .one .pri) (hstoreSets : store.sets = .none)
    (hclearReads : clear.reads = .none) (hclearSets : clear.sets = .none)
    (hfirstDef : ∀ s x, ¬ first.Defines c s x)
    (hstoreDef : ∀ s x, store.Defines a s x → InWord (f s.frm) x) :
    Preserves amx (.one .pri) (fun _ => True)
      [.plain first c, .plain store a] [.plain clear a] where
  live := by
    intro lab out hdrop _
    simp [hfirstReads, hfirstSets, hstoreReads, hstoreSets, hclearReads, hclearSets, pri_dead hdrop]
  agree := by
    intro lab out undef s s' hdrop _ hfree hroom _ hav h
    refine exitAgree_of (t := ⟨0, s.alt, s.frm, s.stk, s.hea, s.data.store (f s.frm) 0⟩)
      (u := s'.store (f s'.frm) 0) ?_ ?_ ?_
    · rw [runCode_plain, hfirst]
      simp only [runCode_plain, hstore, runCode_nil, State.store]
    · rw [runCode_plain, hclear]
      rfl
    · exact {
        pri := fun hlive => absurd ⟨rfl, hlive⟩ hdrop.1
        alt := fun hlive =>
          h.alt (by simp [hfirstReads, hfirstSets, hstoreReads, hstoreSets, hlive])
        frm := h.frm
        stk := h.stk
        hea := h.hea
        data := agreeOff_stored h (fun x hw => by
          rw [writes_plain, hfirst] at hw
          have hlast := writes_plain.mp (hw.resolve_left (hfirstDef s x))
          rw [hstore] at hlast
          exact hstoreDef { s with pri := 0 } x (hlast.resolve_right writes_nil))
          rfl (by rw [State.store, ← h.frm]) }

/-- What the declaration of a local variable asks for: the variable is the cell that the
declaration adds to the stack, and the check of the stack passes. -/
def Declared (amx : Segments) (b : Cell) (s : State) : Prop :=
  s.frm + b = s.stk - 4 ∧
    ({ s with stk := s.stk - 4 } : State).noMargin = false ∧ amx.stp.slt (s.stk - 4) = false

theorem preserves_declare (first : Plain) {w a v b : Cell} (hw : w = -4)
    (hfirst : ∀ t : State, first.exec amx a t = .ok { t with pri := v })
    (hfirstDef : ∀ s x, ¬ first.Defines a s x) :
    Preserves amx .both (Declared amx b)
      [.plain .stack w, .plain first a, .plain (.storS .pri) b] [.plain (.push .const) v] where
  live := by
    intro lab out hdrop _
    obtain ⟨hp, ha⟩ := both_disjoint hdrop
    simp [Plain.reads, Plain.sets, hp, ha]
  agree := by
    intro lab out undef s s' hdrop _ hfree hroom hside hav h
    subst hw
    obtain ⟨hslot, hmargin, hstp⟩ := hside
    have hstack : Plain.exec amx .stack (-4) s = .ok { s with alt := s.stk, stk := s.stk - 4 } := by
      rw [Plain.exec, ← BitVec.sub_eq_add_neg, hstp, guard_false]
      exact congrArg (guard · _ _ _) hmargin
    refine exitAgree_of (t := ⟨v, s.stk, s.frm, s.stk - 4, s.hea, s.data.store (s.stk - 4) v⟩)
      (u := s'.push v) ?_ rfl ?_
    · have hdecl : runCode amx [.plain .stack (-4), .plain first a, .plain (.storS .pri) b] s =
          runCode amx [.plain first a, .plain (.storS .pri) b]
            { s with alt := s.stk, stk := s.stk - 4 } := by
        rw [runCode_plain, hstack]
      rw [hdecl, runCode_plain, hfirst, ← hslot]
      rfl
    · exact {
        pri := fun hlive => absurd hlive (both_disjoint hdrop).1
        alt := fun hlive => absurd hlive (both_disjoint hdrop).2
        frm := h.frm
        stk := congrArg (· - 4) h.stk
        hea := h.hea
        data := agreeOff_stored h (fun x hw => by
          rw [writes_plain, hstack] at hw
          obtain hw | hw := writes_plain.mp (hw.resolve_left id)
          · exact absurd hw (hfirstDef _ x)
          · rw [hfirst] at hw
            obtain hw | hw := writes_plain.mp hw
            · rw [← hslot]
              exact hw
            · exact absurd hw writes_nil) rfl (by rw [State.push, ← h.stk]) }

end

end AmxModC.Compiler.Peephole
