import AmxModC.Exec.Model

namespace AmxModC.Exec

open Foundation Words

/-! Two states that a program cannot tell apart: they agree on the registers that are still read,
and on all data but the cells the program has not defined. -/

structure Regs where
  pri : Bool
  alt : Bool
deriving DecidableEq

namespace Regs

@[simp] def none : Regs := ⟨false, false⟩

@[simp] def one : Reg → Regs
  | .pri => ⟨true, false⟩
  | .alt => ⟨false, true⟩

@[simp] def both : Regs := ⟨true, true⟩

@[simp] def has (live : Regs) : Reg → Bool
  | .pri => live.pri
  | .alt => live.alt

@[simp] def union (x y : Regs) : Regs := ⟨x.pri || y.pri, x.alt || y.alt⟩

@[simp] def diff (x y : Regs) : Regs := ⟨x.pri && !y.pri, x.alt && !y.alt⟩

@[simp] def Sub (x y : Regs) : Prop := (x.pri → y.pri) ∧ (x.alt → y.alt)

def Disjoint (x y : Regs) : Prop := ¬ (x.pri ∧ y.pri) ∧ ¬ (x.alt ∧ y.alt)

instance (x y : Regs) : Decidable (Sub x y) := inferInstanceAs (Decidable (_ ∧ _))

instance (x y : Regs) : Decidable (Disjoint x y) := inferInstanceAs (Decidable (_ ∧ _))

theorem Sub.refl (x : Regs) : Sub x x := ⟨id, id⟩

theorem Sub.union_left (x y : Regs) : x.Sub (x.union y) :=
  ⟨fun h => by simp [h], fun h => by simp [h]⟩

theorem Sub.union_right (x y : Regs) : y.Sub (x.union y) :=
  ⟨fun h => by simp [h], fun h => by simp [h]⟩

theorem Disjoint.union {x y z : Regs} (h : x.Disjoint y) (h' : x.Disjoint z) :
    x.Disjoint (y.union z) := by
  obtain ⟨hp, ha⟩ := h
  obtain ⟨hp', ha'⟩ := h'
  simp only [Regs.Disjoint, Regs.union, Bool.or_eq_true]
  tauto

theorem Sub.trans {x y z : Regs} (h : Sub x y) (h' : Sub y z) : Sub x z :=
  ⟨h'.1 ∘ h.1, h'.2 ∘ h.2⟩

@[simp] theorem diff_none (x : Regs) : x.diff .none = x := by
  simp [diff, none]

end Regs

/-- The free memory between heap and stack, as the checks see it. -/
def State.Free (s : State) (x : Cell) : Prop := s.hea.sle x ∧ x.slt s.stk

structure Agree (undef : Cell → Prop) (live : Regs) (s s' : State) : Prop where
  pri : live.pri → s.pri = s'.pri
  alt : live.alt → s.alt = s'.alt
  frm : s.frm = s'.frm
  stk : s.stk = s'.stk
  hea : s.hea = s'.hea
  data : AgreeOff undef s.data s'.data

namespace Plain

/-- The registers that the instruction reads. -/
def reads : Plain → Regs
  | get _ _ | lref _ | lrefS _ | pop _ | push _ | stack | heap | proc | zeroReg _ | zero | zeroS
  | nop => .none
  | loadI | bounds | not | neg | invert | addC | smulC => .one .pri
  | lodbI | pushR => .one .pri
  | stor r | storS r | sref r | srefS r | align r | pushReg r | shlC r | shrC r | sign r | eqC r
  | swap r => .one r
  | storI | strbI | lidx | lidxB | idxaddr | idxaddrB | xchg | operator _ | sdiv | sdivAlt | udiv
  | udivAlt | relation _ | movs | cmps | fill => .both
  | move .pri => .one .alt
  | move .alt => .one .pri
  | inc (.reg r) | dec (.reg r) => .one r
  | inc .ref | dec .ref => .one .pri
  | inc .data | dec .data | inc .frame | dec .frame => .none

/-- The registers that the instruction sets. -/
def sets : Plain → Regs
  | get _ r | lref r | lrefS r | align r | move r | pop r | shlC r | shrC r | zeroReg r | sign r
  | swap r => .one r
  | loadI | lodbI | lidx | lidxB | idxaddr | idxaddrB | operator _ | not | neg | invert | addC
  | smulC | relation _ | eqC _ | cmps => .one .pri
  | xchg | sdiv | sdivAlt | udiv | udivAlt => .both
  | stack | heap => .one .alt
  | inc (.reg r) | dec (.reg r) => .one r
  | stor _ | storS _ | sref _ | srefS _ | storI | strbI | pushReg _ | push _ | pushR | proc | zero
  | zeroS | movs | fill | bounds | nop | inc .data | dec .data | inc .frame | dec .frame | inc .ref
  | dec .ref => .none

/-- The registers that must agree before, for `out` to agree after. -/
@[simp] def liveIn (op : Plain) (out : Regs) : Regs := (out.diff op.sets).union op.reads

end Plain

def Source.Avoids (source : Source) (undef : Cell → Prop) (offs frm : Cell) : Prop :=
  match source with
  | const | addr => True
  | load => Clear undef offs
  | loadS => Clear undef (frm + offs)

def Place.Avoids (place : Place) (undef : Cell → Prop) (offs : Cell) (s : State) : Prop :=
  match place with
  | reg _ => True
  | data => Clear undef offs
  | frame => Clear undef (s.frm + offs)
  | ref => Clear undef s.pri

/-- The data that the instruction reads lies outside `undef`, and what it takes from the top of
the stack outside `top`. -/
def Plain.Avoids (op : Plain) (undef top : Cell → Prop) (offs : Cell) (s : State) : Prop :=
  match op with
  | get source _ | push source => source.Avoids undef offs s.frm
  | lref _ => Clear undef offs ∧ Clear undef (s.data.load offs)
  | lrefS _ => Clear undef (s.frm + offs) ∧ Clear undef (s.data.load (s.frm + offs))
  | sref _ => Clear undef offs
  | srefS _ => Clear undef (s.frm + offs)
  | loadI | lodbI => Clear undef s.pri
  | lidx => Clear undef (s.pri * 4 + s.alt)
  | lidxB => Clear undef ((s.pri <<< shiftCount offs) + s.alt)
  | inc place | dec place => place.Avoids undef offs s
  | movs => ∀ i < offs.toNat, ¬ undef (s.pri + BitVec.ofNat 32 i)
  | cmps => ∀ i < offs.toNat, ¬ undef (s.pri + BitVec.ofNat 32 i) ∧
      ¬ undef (s.alt + BitVec.ofNat 32 i)
  | pop _ | swap _ => Clear top s.stk
  | _ => True

def Place.Defines (place : Place) (offs : Cell) (s : State) (x : Cell) : Prop :=
  match place with
  | reg _ => False
  | data => InWord offs x
  | frame => InWord (s.frm + offs) x
  | ref => InWord s.pri x

/-- The bytes that the instruction writes. -/
def Plain.Defines (op : Plain) (offs : Cell) (s : State) (x : Cell) : Prop :=
  match op with
  | stor _ | zero => InWord offs x
  | storS _ | zeroS => InWord (s.frm + offs) x
  | sref _ => InWord (s.data.load offs) x
  | srefS _ => InWord (s.data.load (s.frm + offs)) x
  | storI => InWord s.alt x
  | strbI => (offs = 1 ∧ x = s.alt) ∨ (offs = 2 ∧ (x = s.alt ∨ x = s.alt + 1)) ∨
      (offs = 4 ∧ InWord s.alt x)
  | pushReg _ | push _ | proc => InWord (s.stk - 4) x
  | pushR => ∃ i < offs.toNat, InWord (s.stk - 4 - 4 * BitVec.ofNat 32 i) x
  | inc place | dec place => place.Defines offs s x
  | movs => (x - s.alt).toNat < offs.toNat
  | fill => ∃ i < offs.toNat / 4, InWord (s.alt + 4 * BitVec.ofNat 32 i) x
  | swap _ => InWord s.stk x
  | _ => False

/-- What was undefined before the instruction and has not been written. -/
def Plain.still (op : Plain) (undef : Cell → Prop) (offs : Cell) (s : State) (x : Cell) : Prop :=
  undef x ∧ ¬ op.Defines offs s x

/-- What is undefined after the instruction: free memory too. -/
def Plain.after (op : Plain) (undef : Cell → Prop) (offs : Cell) (s s₁ : State) (x : Cell) : Prop :=
  op.still undef offs s x ∨ s₁.Free x

section

variable {undef undef' : Cell → Prop} {live live' out : Regs} {s s' t t' : State} {offs : Cell}
  {r : Reg}

theorem Agree.refl (undef : Cell → Prop) (live : Regs) (s : State) : Agree undef live s s :=
  ⟨fun _ => rfl, fun _ => rfl, rfl, rfl, rfl, .refl undef s.data⟩

theorem Agree.subset (hsub : ∀ x, undef x → undef' x) (h : Agree undef live s s') :
    Agree undef' live s s' :=
  { h with data := h.data.mono hsub }

theorem Agree.trans {s'' : State} (h : Agree undef live s s') (h' : Agree undef live s' s'') :
    Agree undef live s s'' :=
  ⟨fun hp => (h.pri hp).trans (h'.pri hp), fun ha => (h.alt ha).trans (h'.alt ha),
    h.frm.trans h'.frm, h.stk.trans h'.stk, h.hea.trans h'.hea, h.data.trans h'.data⟩

theorem Agree.live_anti (hsub : live'.Sub live) (h : Agree undef live s s') :
    Agree undef live' s s' :=
  { h with pri := h.pri ∘ hsub.1, alt := h.alt ∘ hsub.2 }

theorem Agree.reg (h : Agree undef live s s') {r : Reg} (hr : live.has r) :
    s.reg r = s'.reg r := by
  cases r with
  | pri => exact h.pri hr
  | alt => exact h.alt hr

theorem Agree.setReg (h : Agree undef (live.diff (.one r)) s s') (v : Cell) :
    Agree undef live (s.setReg r v) (s'.setReg r v) := by
  cases r with
  | pri => exact { h with pri := fun _ => rfl, alt := fun hl => h.alt (by simpa [Regs.diff, Regs.one]) }
  | alt => exact { h with alt := fun _ => rfl, pri := fun hl => h.pri (by simpa [Regs.diff, Regs.one]) }

theorem Agree.store (h : Agree undef live s s') (a v : Cell) :
    Agree (fun x => undef x ∧ ¬ InWord a x) live (s.store a v) (s'.store a v) :=
  { h with data := h.data.store_word a v }

theorem Agree.push (h : Agree undef live s s') (v : Cell) :
    Agree (fun x => undef x ∧ ¬ InWord (s.stk - 4) x) live (s.push v) (s'.push v) :=
  { h with
    stk := congrArg (· - 4) h.stk
    data := by
      have hpush := h.data.store_word (s.stk - 4) v
      rw [State.push, State.push, ← h.stk]
      exact hpush }

theorem Source.value_agree {source : Source} {frm : Cell} {m m' : Words}
    (h : AgreeOff undef m m') (hav : source.Avoids undef offs frm) :
    source.value offs frm m = source.value offs frm m' := by
  cases source with
  | const => rfl
  | addr => rfl
  | load => exact h.load_eq hav
  | loadS => exact h.load_eq hav

theorem Agree.value_agree {source : Source} (h : Agree undef live s s')
    (hav : source.Avoids undef offs s.frm) :
    source.value offs s.frm s.data = source.value offs s'.frm s'.data := by
  rw [← h.frm]
  exact Source.value_agree h.data hav

/-- Two outcomes that agree: the same error, or states that agree. -/
def OutcomeAgree (undef still : Cell → Prop) (out : Regs) : Outcome → Outcome → Prop
  | .ok t, .ok t' => Agree still out t t'
  | .error (e, t), .error (e', t') => e = e' ∧ AgreeOff undef t.data t'.data
  | _, _ => False

theorem OutcomeAgree.guard {still : Cell → Prop} {b b' : Bool} {e : AmxError}
    {rest rest' : Outcome} (hb : b = b') (hs : AgreeOff undef s.data s'.data)
    (h : OutcomeAgree undef still out rest rest') :
    OutcomeAgree undef still out (guard b e s rest) (guard b' e s' rest') := by
  subst hb
  cases b with
  | false => exact h
  | true => exact ⟨rfl, hs⟩

theorem OutcomeAgree.cases {still : Cell → Prop} {o o' : Outcome}
    (h : OutcomeAgree undef still out o o') :
    (∃ e t u, o = .error (e, t) ∧ o' = .error (e, u) ∧ AgreeOff undef t.data u.data) ∨
      ∃ t u, o = .ok t ∧ o' = .ok u ∧ Agree still out t u := by
  cases o with
  | error p =>
      cases o' with
      | error q => exact Or.inl ⟨p.1, p.2, q.2, rfl, by rw [h.1], h.2⟩
      | ok u => exact absurd h id
  | ok t =>
      cases o' with
      | error q => exact absurd h id
      | ok u => exact Or.inr ⟨t, u, rfl, rfl, h⟩

theorem Agree.outside_eq (h : Agree undef live s s') (amx : Segments) (a : Cell) :
    s.outside amx a = s'.outside amx a := by
  rw [State.outside, State.outside, h.stk, h.hea]

theorem Agree.outsideEnd_eq (h : Agree undef live s s') (amx : Segments) (a : Cell) :
    s.outsideEnd amx a = s'.outsideEnd amx a := by
  rw [State.outsideEnd, State.outsideEnd, h.stk, h.hea]

theorem Agree.noMargin_eq (h : Agree undef live s s') : s.noMargin = s'.noMargin := by
  rw [State.noMargin, State.noMargin, h.stk, h.hea]

end

namespace Plain

theorem reads_sub (op : Plain) (out : Regs) : op.reads.Sub (op.liveIn out) :=
  ⟨fun h => by simp only [liveIn, Regs.union, h, Bool.or_true],
    fun h => by simp only [liveIn, Regs.union, h, Bool.or_true]⟩

theorem diff_sets_sub (op : Plain) (out : Regs) : (out.diff op.sets).Sub (op.liveIn out) :=
  ⟨fun h => by simp only [liveIn, Regs.union, h, Bool.true_or],
    fun h => by simp only [liveIn, Regs.union, h, Bool.true_or]⟩

section

variable {undef : Cell → Prop} {live out : Regs} {s s' t t' : State} {offs v v' : Cell}
  {r : Reg} {op : Plain}

theorem agree_still (hdef : ∀ x, ¬ op.Defines offs s x) (h : Agree undef live t t') :
    Agree (op.still undef offs s) live t t' :=
  h.subset fun x hx => ⟨hx, hdef x⟩

theorem still_eq {word : Cell → Prop} (hdef : op.Defines offs s = word) :
    op.still undef offs s = fun x => undef x ∧ ¬ word x :=
  funext fun _ => by rw [still, hdef]

theorem agree_set (hdef : ∀ x, ¬ op.Defines offs s x) (hsets : op.sets = .one r)
    (h : Agree undef (out.diff op.sets) s s') (hv : v = v') :
    Agree (op.still undef offs s) out (s.setReg r v) (s'.setReg r v') := by
  subst hv
  rw [hsets] at h
  exact agree_still hdef (h.setReg v)

theorem agree_store {a a' : Cell} (hdef : op.Defines offs s = InWord a) (hsets : op.sets = .none)
    (h : Agree undef (out.diff op.sets) s s') (ha : a = a') (hv : v = v') :
    Agree (op.still undef offs s) out (s.store a v) (s'.store a' v') := by
  subst ha hv
  rw [hsets, Regs.diff_none] at h
  rw [still_eq hdef]
  exact h.store a v

theorem agree_push (hdef : op.Defines offs s = InWord (s.stk - 4)) (hsets : op.sets = .none)
    (h : Agree undef (out.diff op.sets) s s') (hv : v = v') :
    Agree (op.still undef offs s) out (s.push v) (s'.push v') := by
  subst hv
  rw [hsets, Regs.diff_none] at h
  rw [still_eq hdef]
  exact h.push v

end

end Plain

section

variable {undef : Cell → Prop} {live out : Regs} {s s' : State} {offs v : Cell} {op : Plain} {r : Reg}

theorem Plain.reg_eq (h : Agree undef (op.liveIn out) s s') (hreads : op.reads = .one r) :
    s.reg r = s'.reg r := by
  have hsub := op.reads_sub out
  rw [hreads] at hsub
  refine h.reg ?_
  cases r with
  | pri => exact hsub.1 rfl
  | alt => exact hsub.2 rfl

theorem agree_swap (h : Agree undef (out.diff (.one r)) s s') (hreg : s.reg r = s'.reg r)
    (htop : Clear undef s.stk) :
    Agree (fun x => undef x ∧ ¬ InWord s.stk x) out
      ((s.store s.stk (s.reg r)).setReg r (s.data.load s.stk))
      ((s'.store s'.stk (s'.reg r)).setReg r (s'.data.load s'.stk)) := by
  rw [← hreg, ← h.stk, ← h.data.load_eq htop]
  exact (h.store s.stk (s.reg r)).setReg _

theorem agree_update {place : Place} {f : Cell → Cell} (hk : Agree undef (out.diff op.sets) s s')
    (hav : place.Avoids undef offs s) (hdef : op.Defines offs s = place.Defines offs s)
    (hreads : op.reads = (Plain.inc place).reads) (hsets : op.sets = (Plain.inc place).sets)
    (h : Agree undef (op.liveIn out) s s') :
    Agree (op.still undef offs s) out (place.update offs f s)
      (place.update offs f s') := by
  cases place with
  | reg r =>
      refine Plain.agree_set (fun x => ?_) hsets hk (congrArg f (Plain.reg_eq h hreads))
      rw [hdef]
      exact id
  | data => exact Plain.agree_store hdef hsets hk rfl (congrArg f (h.data.load_eq hav))
  | frame =>
      have hv : f (s.data.load (s.frm + offs)) = f (s'.data.load (s'.frm + offs)) := by
        rw [← h.frm]
        exact congrArg f (h.data.load_eq hav)
      exact Plain.agree_store hdef hsets hk (congrArg (· + offs) h.frm) hv
  | ref =>
      have hpri : s.pri = s'.pri := Plain.reg_eq (r := .pri) h hreads
      have hv : f (s.data.load s.pri) = f (s'.data.load s'.pri) := by
        rw [← hpri]
        exact congrArg f (h.data.load_eq hav)
      exact Plain.agree_store hdef hsets hk hpri hv

theorem ofNat_succ (n : Nat) : BitVec.ofNat 32 (n + 1) = BitVec.ofNat 32 n + 1 :=
  BitVec.ofNat_add n 1

theorem agree_pushes (h : Agree undef live s s') (n : Nat) :
    Agree (fun x => undef x ∧ ¬ ∃ i < n, InWord (s.stk - 4 - 4 * BitVec.ofNat 32 i) x) live
      ((fun t => t.push v)^[n] s) ((fun t => t.push v)^[n] s') ∧
      ((fun t : State => t.push v)^[n] s).stk = s.stk - 4 * BitVec.ofNat 32 n := by
  induction n with
  | zero => exact ⟨h.subset fun x hx => ⟨hx, by simp⟩, by simp⟩
  | succ n ih =>
      rw [Function.iterate_succ_apply', Function.iterate_succ_apply']
      refine ⟨(ih.1.push v).subset ?_, ?_⟩
      · rintro x ⟨⟨hx, hold⟩, hnew⟩
        refine ⟨hx, ?_⟩
        rintro ⟨i, hi, hword⟩
        rcases Nat.lt_succ_iff_lt_or_eq.mp hi with hlt | rfl
        · exact hold ⟨i, hlt, hword⟩
        · refine hnew ?_
          rw [ih.2]
          have hslot : s.stk - 4 - 4 * BitVec.ofNat 32 i = s.stk - 4 * BitVec.ofNat 32 i - 4 := by
            ring
          rwa [hslot] at hword
      · rw [State.push, ih.2, ofNat_succ]
        ring

theorem agree_copy (target : Cell) {source : Cell} {n : Nat} (h : Agree undef live s s')
    (hsource : ∀ i < n, ¬ undef (source + BitVec.ofNat 32 i)) :
    Agree (fun x => undef x ∧ ¬ (x - target).toNat < n) live
      (s.copy target source n) (s'.copy target source n) :=
  { h with
    data := by
      intro x hx
      rw [State.copy, State.copy]
      dsimp only
      split
      · next hlt =>
          have hdefined := hsource _ hlt
          rw [BitVec.ofNat_toNat, BitVec.setWidth_eq] at hdefined
          exact h.data _ hdefined
      · next hge => exact h.data x fun hin => hx ⟨hin, hge⟩ }

theorem agree_fill {i : Cell} (h : Agree undef live s s') (n : Nat) :
    Agree (fun x => undef x ∧ ¬ ∃ j < n, InWord (i + 4 * BitVec.ofNat 32 j) x) live
      (s.fill v i n) (s'.fill v i n) := by
  induction n generalizing undef s s' i with
  | zero => exact h.subset fun x hx => ⟨hx, by simp⟩
  | succ n ih =>
      refine (ih (h.store i v)).subset ?_
      rintro x ⟨⟨hx, hfirst⟩, hrest⟩
      refine ⟨hx, ?_⟩
      rintro ⟨j, hj, hword⟩
      cases j with
      | zero => exact hfirst (by simpa using hword)
      | succ j =>
          refine hrest ⟨j, Nat.lt_of_succ_lt_succ hj, ?_⟩
          have hplace : i + 4 * BitVec.ofNat 32 (j + 1) = i + 4 + 4 * BitVec.ofNat 32 j := by
            rw [ofNat_succ]
            ring
          rwa [hplace] at hword

theorem narrowLoad_agree {m m' : Words} {a : Cell} (h : AgreeOff undef m m')
    (ha : Clear undef a) (pri : Cell) :
    narrowLoad m a offs pri = narrowLoad m' a offs pri := by
  rw [narrowLoad, narrowLoad, h _ ha.1, h _ ha.2.1, h.load_eq ha]

theorem narrowStore_agree {m m' : Words} (h : AgreeOff undef m m') (a offs v : Cell) :
    AgreeOff (fun x => undef x ∧ ¬ ((offs = 1 ∧ x = a) ∨ (offs = 2 ∧ (x = a ∨ x = a + 1)) ∨
      (offs = 4 ∧ InWord a x))) (narrowStore m a offs v) (narrowStore m' a offs v) := by
  intro x hx
  have hsame : ¬ ((offs = 1 ∧ x = a) ∨ (offs = 2 ∧ (x = a ∨ x = a + 1)) ∨
      (offs = 4 ∧ InWord a x)) → m x = m' x := fun hout => h x fun hin => hx ⟨hin, hout⟩
  have h12 : (1 : Cell) ≠ 2 := by decide
  have h14 : (1 : Cell) ≠ 4 := by decide
  have h24 : (2 : Cell) ≠ 4 := by decide
  rw [narrowStore, narrowStore]
  split
  · next h1 =>
      subst h1
      change (if _ then _ else _) = if _ then _ else _
      split
      · rfl
      · next hne =>
          refine hsame ?_
          rintro (⟨-, hxa⟩ | ⟨h2, -⟩ | ⟨h4, -⟩)
          exacts [hne hxa, h12 h2, h14 h4]
  · next h1 =>
      split
      · next h2 =>
          subst h2
          change (if _ then _ else if _ then _ else _) = if _ then _ else if _ then _ else _
          split
          · rfl
          · split
            · rfl
            · next hne hne' =>
                refine hsame ?_
                rintro (⟨h1', -⟩ | ⟨-, hxa | hxa⟩ | ⟨h4, -⟩)
                exacts [h1 h1', hne hxa, hne' hxa, h24 h4]
      · next h2 =>
          split
          · refine h.store_word a v x fun hin => hx ⟨hin.1, ?_⟩
            rintro (⟨h1', -⟩ | ⟨h2', -⟩ | ⟨-, hword⟩)
            exacts [h1 h1', h2 h2', hin.2 hword]
          · next h4 =>
              refine hsame ?_
              rintro (⟨h1', -⟩ | ⟨h2', -⟩ | ⟨h4', -⟩)
              exacts [h1 h1', h2 h2', h4 h4']

theorem bytes_eq {a : Cell} {n : Nat} (h : Agree undef live s s')
    (ha : ∀ i < n, ¬ undef (a + BitVec.ofNat 32 i)) : s.bytes a n = s'.bytes a n :=
  List.map_congr_left fun i hi => h.data _ (ha i (List.mem_range.mp hi))

end

theorem exec_agree {undef : Cell → Prop} {out : Regs} {s s' : State} {offs : Cell} {amx : Segments}
    {op : Plain} (h : Agree undef (op.liveIn out) s s') (hav : op.Avoids undef undef offs s) :
    OutcomeAgree undef (op.still undef offs s) out (op.exec amx offs s) (op.exec amx offs s') := by
  have hk : Agree undef (out.diff op.sets) s s' := h.live_anti (op.diff_sets_sub out)
  have hp : op.reads.pri → s.pri = s'.pri := fun hr => h.pri ((op.reads_sub out).1 hr)
  have ha : op.reads.alt → s.alt = s'.alt := fun hr => h.alt ((op.reads_sub out).2 hr)
  cases op with
  | get source r => exact Plain.agree_set (fun _ => id) rfl hk (h.value_agree hav)
  | lref r =>
      obtain ⟨h1, h2⟩ : Clear undef offs ∧ Clear undef (s.data.load offs) := hav
      have hv : s.data.load (s.data.load offs) = s'.data.load (s'.data.load offs) := by
        rw [← h.data.load_eq h1, h.data.load_eq h2]
      exact Plain.agree_set (fun _ => id) rfl hk hv
  | lrefS r =>
      obtain ⟨h1, h2⟩ : Clear undef (s.frm + offs) ∧
        Clear undef (s.data.load (s.frm + offs)) := hav
      have hv : s.data.load (s.data.load (s.frm + offs)) =
          s'.data.load (s'.data.load (s'.frm + offs)) := by
        rw [← h.frm, ← h.data.load_eq h1, h.data.load_eq h2]
      exact Plain.agree_set (fun _ => id) rfl hk hv
  | loadI =>
      have h1 : Clear undef s.pri := hav
      have hv : s.data.load s.pri = s'.data.load s'.pri := by
        rw [← hp rfl, h.data.load_eq h1]
      refine .guard (by rw [h.outside_eq, hp rfl]) h.data ?_
      exact Plain.agree_set (r := .pri) (fun _ => id) rfl hk hv
  | stor r => exact Plain.agree_store rfl rfl hk rfl (Plain.reg_eq h rfl)
  | storS r => exact Plain.agree_store rfl rfl hk (congrArg (· + offs) h.frm) (Plain.reg_eq h rfl)
  | sref r =>
      have h1 : Clear undef offs := hav
      exact Plain.agree_store rfl rfl hk (h.data.load_eq h1) (Plain.reg_eq h rfl)
  | srefS r =>
      have h1 : Clear undef (s.frm + offs) := hav
      have ha : s.data.load (s.frm + offs) = s'.data.load (s'.frm + offs) := by
        rw [← h.frm, h.data.load_eq h1]
      exact Plain.agree_store rfl rfl hk ha (Plain.reg_eq h rfl)
  | storI =>
      refine .guard (by rw [h.outside_eq, ha rfl]) h.data ?_
      exact Plain.agree_store rfl rfl hk (ha rfl) (hp rfl)
  | lidx =>
      have h1 : Clear undef (s.pri * 4 + s.alt) := hav
      have hv : s.data.load (s.pri * 4 + s.alt) = s'.data.load (s'.pri * 4 + s'.alt) := by
        rw [← hp rfl, ← ha rfl, h.data.load_eq h1]
      refine .guard (by rw [h.outside_eq, hp rfl, ha rfl]) h.data ?_
      exact Plain.agree_set (r := .pri) (fun _ => id) rfl hk hv
  | lidxB =>
      have h1 : Clear undef ((s.pri <<< shiftCount offs) + s.alt) := hav
      have hv : s.data.load ((s.pri <<< shiftCount offs) + s.alt) =
          s'.data.load ((s'.pri <<< shiftCount offs) + s'.alt) := by
        rw [← hp rfl, ← ha rfl, h.data.load_eq h1]
      refine .guard (by rw [h.outside_eq, hp rfl, ha rfl]) h.data ?_
      exact Plain.agree_set (r := .pri) (fun _ => id) rfl hk hv
  | idxaddr => exact Plain.agree_set (r := .pri) (fun _ => id) rfl hk (by rw [hp rfl, ha rfl])
  | idxaddrB => exact Plain.agree_set (r := .pri) (fun _ => id) rfl hk (by rw [hp rfl, ha rfl])
  | align r => exact Plain.agree_set (fun _ => id) rfl hk (by rw [Plain.reg_eq h rfl])
  | move r =>
      cases r with
      | pri => exact Plain.agree_set (r := .pri) (fun _ => id) rfl hk (ha rfl)
      | alt => exact Plain.agree_set (r := .alt) (fun _ => id) rfl hk (hp rfl)
  | xchg =>
      refine Plain.agree_still (fun _ => id) { hk with pri := fun _ => ha rfl, alt := fun _ => hp rfl }
  | pushReg r => exact Plain.agree_push rfl rfl hk (Plain.reg_eq h rfl)
  | push source => exact Plain.agree_push rfl rfl hk (h.value_agree hav)
  | operator op => exact Plain.agree_set (r := .pri) (fun _ => id) rfl hk (by rw [hp rfl, ha rfl])
  | shlC r => exact Plain.agree_set (fun _ => id) rfl hk (by rw [Plain.reg_eq h rfl])
  | shrC r => exact Plain.agree_set (fun _ => id) rfl hk (by rw [Plain.reg_eq h rfl])
  | sdiv =>
      refine .guard (by rw [ha rfl]) h.data (Plain.agree_still (fun _ => id) ?_)
      exact { hk with pri := fun _ => by rw [hp rfl, ha rfl], alt := fun _ => by rw [hp rfl, ha rfl] }
  | sdivAlt =>
      refine .guard (by rw [hp rfl]) h.data (Plain.agree_still (fun _ => id) ?_)
      exact { hk with pri := fun _ => by rw [hp rfl, ha rfl], alt := fun _ => by rw [hp rfl, ha rfl] }
  | udiv =>
      refine .guard (by rw [ha rfl]) h.data (Plain.agree_still (fun _ => id) ?_)
      exact { hk with pri := fun _ => by rw [hp rfl, ha rfl], alt := fun _ => by rw [hp rfl, ha rfl] }
  | udivAlt =>
      refine .guard (by rw [hp rfl]) h.data (Plain.agree_still (fun _ => id) ?_)
      exact { hk with pri := fun _ => by rw [hp rfl, ha rfl], alt := fun _ => by rw [hp rfl, ha rfl] }
  | not => exact Plain.agree_set (r := .pri) (fun _ => id) rfl hk (by rw [hp rfl])
  | neg => exact Plain.agree_set (r := .pri) (fun _ => id) rfl hk (by rw [hp rfl])
  | invert => exact Plain.agree_set (r := .pri) (fun _ => id) rfl hk (by rw [hp rfl])
  | addC => exact Plain.agree_set (r := .pri) (fun _ => id) rfl hk (by rw [hp rfl])
  | smulC => exact Plain.agree_set (r := .pri) (fun _ => id) rfl hk (by rw [hp rfl])
  | zeroReg r => exact Plain.agree_set (fun _ => id) rfl hk rfl
  | zero => exact Plain.agree_store rfl rfl hk rfl rfl
  | zeroS => exact Plain.agree_store rfl rfl hk (congrArg (· + offs) h.frm) rfl
  | sign r => exact Plain.agree_set (fun _ => id) rfl hk (by rw [Plain.reg_eq h rfl])
  | relation t => exact Plain.agree_set (r := .pri) (fun _ => id) rfl hk (by rw [hp rfl, ha rfl])
  | eqC r => exact Plain.agree_set (r := .pri) (fun _ => id) rfl hk (by rw [Plain.reg_eq h rfl])
  | inc place => exact agree_update hk hav rfl rfl rfl h
  | dec place => exact agree_update hk hav rfl (by cases place <;> rfl) (by cases place <;> rfl) h
  | bounds =>
      exact .guard (by rw [hp rfl]) h.data (Plain.agree_still (fun _ => id) (out.diff_none ▸ hk))
  | nop => exact Plain.agree_still (fun _ => id) (out.diff_none ▸ hk)
  | lodbI =>
      have h1 : Clear undef s.pri := hav
      refine .guard (by rw [h.outside_eq, hp rfl]) h.data ?_
      refine Plain.agree_set (r := .pri) (fun _ => id) rfl hk ?_
      rw [← hp rfl]
      exact narrowLoad_agree h.data h1 s.pri
  | strbI =>
      refine .guard (by rw [h.outside_eq, ha rfl]) h.data ?_
      refine { (out.diff_none ▸ hk : Agree undef out s s') with data := ?_ }
      rw [← hp rfl, ← ha rfl]
      exact narrowStore_agree h.data s.alt offs s.pri
  | pushR =>
      have hpushes := (agree_pushes (v := s.pri) (out.diff_none ▸ hk) offs.toNat).1
      rw [Plain.exec, Plain.exec, ← hp rfl]
      exact hpushes
  | pop r =>
      have htop : Clear undef s.stk := hav
      have hset := hk.setReg (s.data.load s.stk)
      refine Plain.agree_still (fun _ => id) ?_
      rw [State.pop, State.pop, ← h.stk, ← h.data.load_eq htop]
      exact { hset with stk := rfl }
  | swap r => exact agree_swap hk (Plain.reg_eq h rfl) hav
  | movs =>
      have hcopy := agree_copy s.alt (out.diff_none ▸ hk) hav
      have hchecks : blockChecks amx offs s = blockChecks amx offs s' := by
        simp only [blockChecks, h.outside_eq, h.outsideEnd_eq, hp rfl, ha rfl]
      refine .guard hchecks h.data ?_
      rw [← hp rfl, ← ha rfl]
      exact hcopy
  | cmps =>
      have hchecks : blockChecks amx offs s = blockChecks amx offs s' := by
        simp only [blockChecks, h.outside_eq, h.outsideEnd_eq, hp rfl, ha rfl]
      refine .guard hchecks h.data (Plain.agree_set (r := .pri) (fun _ => id) rfl hk ?_)
      rw [← hp rfl, ← ha rfl, bytes_eq h fun i hi => (hav i hi).1,
        bytes_eq h fun i hi => (hav i hi).2]
  | fill =>
      refine .guard (by rw [h.outside_eq, h.outsideEnd_eq, ha rfl]) h.data ?_
      rw [← hp rfl, ← ha rfl]
      exact agree_fill (out.diff_none ▸ hk) _
  | stack =>
      have hs : Agree undef out { s with alt := s.stk, stk := s.stk + offs }
          { s' with alt := s'.stk, stk := s'.stk + offs } :=
        { hk.setReg (r := .alt) s.stk with
          alt := fun _ => h.stk
          stk := congrArg (· + offs) h.stk }
      refine .guard hs.noMargin_eq hs.data (.guard ?_ hs.data (Plain.agree_still (fun _ => id) hs))
      exact congrArg _ hs.stk
  | heap =>
      have hs : Agree undef out { s with alt := s.hea, hea := s.hea + offs }
          { s' with alt := s'.hea, hea := s'.hea + offs } :=
        { hk.setReg (r := .alt) s.hea with
          alt := fun _ => h.hea
          hea := congrArg (· + offs) h.hea }
      refine .guard hs.noMargin_eq hs.data (.guard ?_ hs.data (Plain.agree_still (fun _ => id) hs))
      exact congrArg (BitVec.slt · amx.hlw) hs.hea
  | proc =>
      have hpush : Agree (fun x => undef x ∧ ¬ InWord (s.stk - 4) x) out (s.push s.frm)
          (s'.push s'.frm) := by
        rw [← h.frm]
        exact Agree.push (out.diff_none ▸ hk) s.frm
      have hs : Agree (fun x => undef x ∧ ¬ InWord (s.stk - 4) x) out
          { s.push s.frm with frm := (s.push s.frm).stk }
          { s'.push s'.frm with frm := (s'.push s'.frm).stk } :=
        { hpush with frm := hpush.stk }
      exact .guard hs.noMargin_eq (hs.data.mono fun _ hx => hx.1) hs

section

variable {undef top : Cell → Prop} {live out : Regs} {s s' t : State} {offs x : Cell}
  {amx : Segments} {op : Plain}

theorem guard_ok {failed : Bool} {e : AmxError} {rest : Outcome}
    (h : guard failed e s rest = .ok t) : rest = .ok t := by
  cases failed with
  | false => exact h
  | true => cases h

theorem push_frame {v : Cell} (hx : ¬ InWord (s.stk - 4) x) : (s.push v).data x = s.data x :=
  store_of_not hx

theorem setReg_data (r : Reg) (v : Cell) : (s.setReg r v).data = s.data := by
  cases r <;> rfl

theorem update_frame {place : Place} {f : Cell → Cell} (hx : ¬ place.Defines offs s x) :
    (place.update offs f s).data x = s.data x := by
  cases place with
  | reg r => exact congrFun (setReg_data r _) x
  | data => exact store_of_not hx
  | frame => exact store_of_not hx
  | ref => exact store_of_not hx

theorem pushes_frame {v : Cell} {n : Nat}
    (hx : ¬ ∃ i < n, InWord (s.stk - 4 - 4 * BitVec.ofNat 32 i) x) :
    ((fun t : State => t.push v)^[n] s).data x = s.data x := by
  induction n with
  | zero => rfl
  | succ n ih =>
      have hstk := (agree_pushes (v := v) (Agree.refl (fun _ => False) .none s) n).2
      rw [Function.iterate_succ_apply', push_frame]
      · exact ih fun ⟨i, hi, hword⟩ => hx ⟨i, Nat.lt_succ_of_lt hi, hword⟩
      · intro hword
        refine hx ⟨n, Nat.lt_succ_self n, ?_⟩
        rw [hstk] at hword
        have hslot : s.stk - 4 - 4 * BitVec.ofNat 32 n = s.stk - 4 * BitVec.ofNat 32 n - 4 := by
          ring
        rwa [hslot]

theorem fill_frame {v i : Cell} {n : Nat} (hx : ¬ ∃ j < n, InWord (i + 4 * BitVec.ofNat 32 j) x) :
    (s.fill v i n).data x = s.data x := by
  induction n generalizing s i with
  | zero => rfl
  | succ n ih =>
      rw [State.fill, ih]
      · exact store_of_not fun hword => hx ⟨0, Nat.succ_pos n, by simpa using hword⟩
      · rintro ⟨j, hj, hword⟩
        refine hx ⟨j + 1, Nat.succ_lt_succ hj, ?_⟩
        have hplace : i + 4 * BitVec.ofNat 32 (j + 1) = i + 4 + 4 * BitVec.ofNat 32 j := by
          rw [ofNat_succ]
          ring
        rwa [hplace]

theorem narrowStore_frame {m : Words} {a v : Cell} (hx : ¬ ((offs = 1 ∧ x = a) ∨
    (offs = 2 ∧ (x = a ∨ x = a + 1)) ∨ (offs = 4 ∧ InWord a x))) :
    narrowStore m a offs v x = m x := by
  rw [narrowStore]
  split
  · next h1 => exact if_neg fun hxa => hx (Or.inl ⟨h1, hxa⟩)
  · split
    · next h2 =>
        dsimp only
        rw [if_neg fun hxa => hx (Or.inr (Or.inl ⟨h2, Or.inl hxa⟩)),
          if_neg fun hxa => hx (Or.inr (Or.inl ⟨h2, Or.inr hxa⟩))]
    · split
      · next h4 => exact store_of_not fun hword => hx (Or.inr (Or.inr ⟨h4, hword⟩))
      · rfl

theorem Plain.exec_frame (h : op.exec amx offs s = .ok t) (hx : ¬ op.Defines offs s x) :
    t.data x = s.data x := by
  cases op with
  | get source r | lref r | lrefS r | align r | shlC r | shrC r | zeroReg r | sign r =>
      cases h
      exact congrFun (setReg_data r _) x
  | stor r | storS r | sref r | srefS r | zero | zeroS =>
      cases h
      exact store_of_not hx
  | pushReg r | push source =>
      cases h
      exact push_frame hx
  | pushR =>
      cases h
      exact pushes_frame hx
  | inc place | dec place =>
      cases h
      exact update_frame hx
  | storI =>
      cases guard_ok h
      exact store_of_not hx
  | strbI =>
      cases guard_ok h
      exact narrowStore_frame hx
  | movs =>
      cases guard_ok h
      exact if_neg hx
  | fill =>
      cases guard_ok h
      exact fill_frame hx
  | proc =>
      cases guard_ok h
      exact push_frame hx
  | swap r =>
      cases h
      exact (congrFun (setReg_data r _) x).trans (store_of_not hx)
  | pop r =>
      cases h
      exact congrFun (setReg_data r _) x
  | move r =>
      cases r <;> cases h <;> rfl
  | stack | heap =>
      cases guard_ok (guard_ok h)
      rfl
  | loadI | lodbI | lidx | lidxB | sdiv | sdivAlt | udiv | udivAlt | cmps | bounds =>
      cases guard_ok h
      rfl
  | idxaddr | idxaddrB | xchg | operator op | not | neg | invert | addC | smulC | relation t
  | eqC r | nop =>
      cases h
      rfl

theorem Place.avoids_agree {place : Place} (h : Agree undef live s s')
    (href : place = .ref → s.pri = s'.pri) (hav : place.Avoids top offs s) :
    place.Avoids top offs s' := by
  cases place with
  | reg r => trivial
  | data => exact hav
  | frame =>
      have hav : Clear top (s.frm + offs) := hav
      rwa [h.frm] at hav
  | ref =>
      have hav : Clear top s.pri := hav
      rwa [href rfl] at hav

theorem Place.defines_agree {place : Place} (h : Agree undef live s s')
    (href : place = .ref → s.pri = s'.pri) : place.Defines offs s = place.Defines offs s' := by
  cases place with
  | reg r => rfl
  | data => rfl
  | frame => exact congrArg (fun frm => InWord (frm + offs)) h.frm
  | ref => exact congrArg InWord (href rfl)

theorem Plain.avoids_agree {E : Cell → Prop} (h : Agree E (op.liveIn out) s s')
    (hsub : ∀ x, E x → undef x) (hav : op.Avoids undef top offs s) :
    op.Avoids undef top offs s' := by
  have hp : op.reads.pri → s.pri = s'.pri := fun hr => h.pri ((op.reads_sub out).1 hr)
  have ha : op.reads.alt → s.alt = s'.alt := fun hr => h.alt ((op.reads_sub out).2 hr)
  have hload {a : Cell} (hclear : Clear undef a) : s.data.load a = s'.data.load a :=
    h.data.load_eq (hclear.anti hsub)
  cases op with
  | get source r | push source =>
      cases source with
      | loadS =>
          have hav : Clear undef (s.frm + offs) := hav
          rwa [h.frm] at hav
      | _ => exact hav
  | lref r =>
      obtain ⟨h1, h2⟩ : Clear undef offs ∧ Clear undef (s.data.load offs) := hav
      exact ⟨h1, hload h1 ▸ h2⟩
  | lrefS r =>
      obtain ⟨h1, h2⟩ : Clear undef (s.frm + offs) ∧
        Clear undef (s.data.load (s.frm + offs)) := hav
      rw [hload h1] at h2
      exact ⟨h.frm ▸ h1, h.frm ▸ h2⟩
  | srefS r =>
      have hav : Clear undef (s.frm + offs) := hav
      rwa [h.frm] at hav
  | loadI | lodbI =>
      have hav : Clear undef s.pri := hav
      rwa [hp rfl] at hav
  | lidx =>
      have hav : Clear undef (s.pri * 4 + s.alt) := hav
      rwa [hp rfl, ha rfl] at hav
  | lidxB =>
      have hav : Clear undef ((s.pri <<< shiftCount offs) + s.alt) := hav
      rwa [hp rfl, ha rfl] at hav
  | inc place | dec place => exact Place.avoids_agree h (fun hplace => hp (by subst hplace; rfl)) hav
  | movs =>
      have hav : ∀ i < offs.toNat, ¬ undef (s.pri + BitVec.ofNat 32 i) := hav
      rwa [hp rfl] at hav
  | cmps =>
      have hav : ∀ i < offs.toNat, ¬ undef (s.pri + BitVec.ofNat 32 i) ∧
          ¬ undef (s.alt + BitVec.ofNat 32 i) := hav
      rwa [hp rfl, ha rfl] at hav
  | pop r | swap r =>
      have hav : Clear top s.stk := hav
      rwa [h.stk] at hav
  | _ => exact hav

theorem Plain.defines_agree {E : Cell → Prop} (h : Agree E (op.liveIn out) s s')
    (hsub : ∀ x, E x → undef x) (hav : op.Avoids undef top offs s) :
    op.Defines offs s = op.Defines offs s' := by
  have hp : op.reads.pri → s.pri = s'.pri := fun hr => h.pri ((op.reads_sub out).1 hr)
  have ha : op.reads.alt → s.alt = s'.alt := fun hr => h.alt ((op.reads_sub out).2 hr)
  have hload {a : Cell} (hclear : Clear undef a) : s.data.load a = s'.data.load a :=
    h.data.load_eq (hclear.anti hsub)
  cases op with
  | storS r | zeroS => exact congrArg (fun frm => InWord (frm + offs)) h.frm
  | sref r => exact congrArg InWord (hload hav)
  | srefS r =>
      have hav : Clear undef (s.frm + offs) := hav
      have hplace := hload hav
      rw [h.frm] at hplace
      funext x
      rw [Plain.Defines, Plain.Defines, h.frm, hplace]
  | storI => exact congrArg InWord (ha rfl)
  | strbI | movs | fill =>
      funext x
      rw [Plain.Defines, Plain.Defines, ha rfl]
  | pushReg r | push source | proc | swap r | pushR =>
      funext x
      rw [Plain.Defines, Plain.Defines, h.stk]
  | inc place | dec place => exact Place.defines_agree h fun hplace => hp (by subst hplace; rfl)
  | _ => rfl

end

end AmxModC.Exec
