import AmxModC.Exec.Frame

namespace AmxModC.Exec

open Foundation Words

/-! Straight pieces of code: plain instructions, and jumps to labels. -/

inductive Branch
  | jump
  | jzer
  | jnz
  | test (t : Relation)
deriving DecidableEq

@[simp] def Branch.taken : Branch → State → Bool
  | jump, _ => true
  | jzer, s => s.pri == 0
  | jnz, s => s.pri != 0
  | test t, s => t.holds s.pri s.alt

@[simp] def Branch.reads : Branch → Regs
  | jump => .none
  | jzer | jnz => .one .pri
  | test _ => .both

inductive Instr
  | plain (op : Plain) (offs : Cell)
  | branch (b : Branch) (label : Cell)
deriving DecidableEq

/-- How a piece of code is left: at its end, by a jump to a label, or with an error. -/
inductive Exit
  | fall (s : State)
  | jump (label : Cell) (s : State)
  | error (e : AmxError) (s : State)

/-- The state in which a piece of code is left, if not with an error. -/
def Exit.state : Exit → Option State
  | fall t | jump _ t => some t
  | error _ _ => none

def Instr.exec (amx : Segments) : Instr → State → Exit
  | plain op offs, s =>
      match op.exec amx offs s with
      | .ok t => .fall t
      | .error (e, t) => .error e t
  | branch b label, s => if b.taken s then .jump label s else .fall s

def runCode (amx : Segments) : List Instr → State → Exit
  | [], s => .fall s
  | i :: rest, s =>
      match i.exec amx s with
      | .fall t => runCode amx rest t
      | exit => exit

section

variable (amx : Segments) (op : Plain) (offs label : Cell) (b : Branch) (rest : List Instr)
  (s : State)

@[simp] theorem runCode_nil : runCode amx [] s = .fall s := rfl

@[simp] theorem runCode_plain : runCode amx (.plain op offs :: rest) s =
    match op.exec amx offs s with
    | .ok t => runCode amx rest t
    | .error (e, t) => .error e t := by
  rw [runCode, Instr.exec]
  cases op.exec amx offs s <;> rfl

@[simp] theorem runCode_branch : runCode amx (.branch b label :: rest) s =
    if b.taken s then .jump label s else runCode amx rest s := by
  rw [runCode, Instr.exec]
  cases b.taken s <;> rfl

end

/-- What must agree in front of a piece of code, for `out` to agree at its end and `lab` at the
labels it jumps to. -/
@[simp] def liveIn (lab : Cell → Regs) (out : Regs) : List Instr → Regs
  | [] => out
  | .plain op _ :: rest => op.liveIn (liveIn lab out rest)
  | .branch .jump l :: _ => lab l
  | .branch b l :: rest => ((liveIn lab out rest).union (lab l)).union b.reads

@[simp] def targets : List Instr → List Cell
  | [] => []
  | .plain _ _ :: rest => targets rest
  | .branch _ l :: rest => l :: targets rest

/-- The bytes that the piece of code writes before it is left. -/
def Writes (amx : Segments) (x : Cell) : List Instr → State → Prop
  | [], _ => False
  | i :: rest, s =>
      (match i with
        | .plain op offs => op.Defines offs s x
        | .branch _ _ => False) ∨
      match i.exec amx s with
      | .fall t => Writes amx x rest t
      | _ => False

section

variable {amx : Segments} {x offs label : Cell} {op : Plain} {b : Branch} {rest : List Instr}
  {s : State}

@[simp] theorem writes_nil : ¬ Writes amx x [] s := id

@[simp] theorem writes_plain : Writes amx x (.plain op offs :: rest) s ↔
    op.Defines offs s x ∨
      match op.exec amx offs s with
      | .ok t => Writes amx x rest t
      | .error _ => False := by
  rw [Writes, Instr.exec]
  cases op.exec amx offs s <;> rfl

@[simp] theorem writes_branch : Writes amx x (.branch b label :: rest) s ↔
    b.taken s = false ∧ Writes amx x rest s := by
  rw [Writes, Instr.exec]
  cases b.taken s <;> simp

def Instr.Silent : Instr → Prop
  | .plain op offs => ∀ s x, ¬ op.Defines offs s x
  | .branch _ _ => True

theorem not_writes_of_silent {block : List Instr} (h : ∀ i ∈ block, i.Silent) :
    ¬ Writes amx x block s := by
  induction block generalizing s with
  | nil => exact id
  | cons i rest ih =>
      obtain ⟨hi, hrest⟩ := List.forall_mem_cons.mp h
      cases i with
      | branch b l =>
          rw [writes_branch]
          exact fun hw => ih hrest hw.2
      | plain op offs =>
          rw [writes_plain]
          rintro (hw | hw)
          · exact hi s x hw
          · cases hexec : op.exec amx offs s with
            | error _ =>
                rw [hexec] at hw
                exact hw
            | ok t =>
                rw [hexec] at hw
                exact ih hrest hw

end

/-- What is undefined where the code is left in the state `t`. -/
def undefinedAt (amx : Segments) (undef : Cell → Prop) (block : List Instr) (s t : State) (x : Cell) :
    Prop :=
  (undef x ∧ ¬ Writes amx x block s) ∨ t.Free x

/-- All the data that the piece of code reads is defined in front of it; what it takes from the
stack may also be its own. -/
def Avoids (amx : Segments) (undef : Cell → Prop) : (top : Cell → Prop) → List Instr → State → Prop
  | _, [], _ => True
  | top, .branch b l :: rest, s =>
      match Instr.exec amx (.branch b l) s with
      | .fall t => Avoids amx undef top rest t
      | _ => True
  | top, .plain op offs :: rest, s =>
      op.Avoids undef top offs s ∧
        match op.exec amx offs s with
        | .ok t => Avoids amx undef (op.after top offs s t) rest t
        | .error _ => True

section

variable {amx : Segments} {undef undef' top top' : Cell → Prop} {block : List Instr} {s : State}

theorem Plain.Avoids.anti {op : Plain} {offs : Cell} (hundef : ∀ x, undef x → undef' x)
    (htop : ∀ x, top x → top' x) (h : op.Avoids undef' top' offs s) :
    op.Avoids undef top offs s := by
  cases op with
  | get source r | push source => cases source <;> first | trivial | exact Clear.anti hundef h
  | lref r | lrefS r => exact ⟨h.1.anti hundef, h.2.anti hundef⟩
  | sref r | srefS r | loadI | lodbI | lidx | lidxB => exact Clear.anti hundef h
  | inc place | dec place => cases place <;> first | trivial | exact Clear.anti hundef h
  | movs => exact fun i hi hx => h i hi (hundef _ hx)
  | cmps =>
      exact fun i hi => ⟨fun hx => (h i hi).1 (hundef _ hx), fun hx => (h i hi).2 (hundef _ hx)⟩
  | pop r | swap r => exact Clear.anti htop h
  | _ => trivial

theorem Avoids.anti (hundef : ∀ x, undef x → undef' x) (htop : ∀ x, top x → top' x)
    (h : Avoids amx undef' top' block s) : Avoids amx undef top block s := by
  induction block generalizing top top' s with
  | nil => trivial
  | cons i rest ih =>
      cases i with
      | plain op offs =>
          obtain ⟨hop, hrest⟩ := h
          refine ⟨hop.anti hundef htop, ?_⟩
          cases hexec : op.exec amx offs s with
          | error _ => trivial
          | ok t =>
              rw [hexec] at hrest
              exact ih (fun x => Or.imp_left fun hx => ⟨htop x hx.1, hx.2⟩) hrest
      | branch b l =>
          rw [Avoids] at h ⊢
          split
          · next t hexec =>
              rw [hexec] at h
              exact ih htop h
          · trivial

end

def ExitAgree (undef : Cell → Prop) (after : State → Cell → Prop) (out : Regs)
    (lab : Cell → Regs) : Exit → Exit → Prop
  | .fall t, .fall t' => Agree (after t) out t t'
  | .jump l t, .jump l' t' => l = l' ∧ Agree (after t) (lab l) t t'
  | .error e t, .error e' t' => e = e' ∧ AgreeOff undef t.data t'.data
  | _, _ => False

section

variable {amx : Segments} {lab : Cell → Regs} {out : Regs} {undef top E E' : Cell → Prop}
  {after after' : State → Cell → Prop} {block : List Instr} {s s' t : State} {x : Cell}

theorem ExitAgree.mono {e e' : Exit} (hE : ∀ x, E x → E' x)
    (hafter : ∀ t x, after t x → after' t x) (h : ExitAgree E after out lab e e') :
    ExitAgree E' after' out lab e e' := by
  cases e with
  | fall t =>
      cases e' with
      | fall t' => exact Agree.subset (hafter t) h
      | jump l' t' | error e' t' => exact h
  | jump l t =>
      cases e' with
      | jump l' t' => exact ⟨h.1, h.2.subset (hafter t)⟩
      | fall t' | error e' t' => exact h
  | error e t =>
      cases e' with
      | error e' t' => exact ⟨h.1, h.2.mono hE⟩
      | fall t' | jump l' t' => exact h

theorem Branch.taken_agree {b : Branch} {live : Regs} (h : Agree E live s s')
    (hreads : b.reads.Sub live) : b.taken s = b.taken s' := by
  cases b with
  | jump => rfl
  | jzer | jnz => rw [taken, taken, h.pri (hreads.1 rfl)]
  | test t => rw [taken, taken, h.pri (hreads.1 rfl), h.alt (hreads.2 rfl)]

theorem Agree.free_iff {live : Regs} (h : Agree E live s s') : s.Free x ↔ s'.Free x := by
  rw [State.Free, State.Free, h.stk, h.hea]

theorem liveIn_branch_sub (lab : Cell → Regs) (out : Regs) (b : Branch) (l : Cell)
    (rest : List Instr) :
    b.reads.Sub (liveIn lab out (.branch b l :: rest)) ∧
      (lab l).Sub (liveIn lab out (.branch b l :: rest)) ∧
      (b ≠ .jump → (liveIn lab out rest).Sub (liveIn lab out (.branch b l :: rest))) := by
  cases b <;> simp <;> tauto

theorem runCode_agree (hav : Avoids amx undef top block s) (hE : ∀ x, E x → undef x)
    (htop : ∀ x, E x → top x) (h : Agree E (liveIn lab out block) s s') :
    ExitAgree E (fun _ x => E x ∧ ¬ Writes amx x block s) out lab (runCode amx block s)
        (runCode amx block s') ∧
      Avoids amx undef top block s' ∧ ∀ x, Writes amx x block s ↔ Writes amx x block s' := by
  induction block generalizing top E s s' with
  | nil => exact ⟨h.subset fun x hx => ⟨hx, id⟩, trivial, fun x => Iff.rfl⟩
  | cons i rest ih =>
      cases i with
      | plain op offs =>
          obtain ⟨hop, hrest⟩ := hav
          have hdef := op.defines_agree h hE hop
          rw [runCode_plain, runCode_plain]
          simp only [writes_plain, Avoids]
          have hexec : OutcomeAgree E (op.still E offs s) (liveIn lab out rest)
              (op.exec amx offs s) (op.exec amx offs s') := exec_agree h (hop.anti hE htop)
          rcases hexec.cases with ⟨e, t, u, ht, hu, hdata⟩ | ⟨t, u, ht, hu, hagree⟩
          · rw [ht, hu, ← hdef]
            exact ⟨⟨rfl, hdata⟩, ⟨op.avoids_agree h hE hop, trivial⟩, fun x => Iff.rfl⟩
          · rw [ht] at hrest
            rw [ht, hu, ← hdef]
            have hafter : op.after top offs s t = op.after top offs s' u := by
              funext x
              rw [Plain.after, Plain.after, Plain.still, Plain.still, hdef, hagree.free_iff]
            obtain ⟨hexit, havoids, hwrites⟩ := ih hrest (fun x hx => hE x hx.1)
              (fun x hx => Or.inl ⟨htop x hx.1, hx.2⟩) hagree
            refine ⟨hexit.mono (fun x hx => hx.1) fun _ x hx => ⟨hx.1.1, ?_⟩,
              ⟨op.avoids_agree h hE hop, ?_⟩, fun x => or_congr_right (hwrites x)⟩
            · rintro (hdefines | hrest)
              exacts [hx.1.2 hdefines, hx.2 hrest]
            · rw [hafter] at havoids
              exact havoids
      | branch b l =>
          obtain ⟨hreads, hlab, hfall⟩ := liveIn_branch_sub lab out b l rest
          have htaken := Branch.taken_agree h hreads
          rw [runCode_branch, runCode_branch, ← htaken]
          simp only [writes_branch, ← htaken, Avoids, Instr.exec]
          rw [Avoids, Instr.exec] at hav
          cases hb : b.taken s with
          | true => exact ⟨⟨rfl, (h.subset fun x hx => ⟨hx, by simp⟩).live_anti hlab⟩, trivial, by simp⟩
          | false =>
              have hne : b ≠ .jump := by
                rintro rfl
                cases hb
              rw [hb] at hav
              obtain ⟨hexit, havoids, hwrites⟩ := ih hav hE htop (h.live_anti (hfall hne))
              exact ⟨hexit.mono (fun _ => id) fun _ x hx => ⟨hx.1, fun hw => hx.2 hw.2⟩, havoids,
                fun x => and_congr_right fun _ => hwrites x⟩

theorem runCode_frame (h : (runCode amx block s).state = some t) (hx : ¬ Writes amx x block s) :
    t.data x = s.data x := by
  induction block generalizing s with
  | nil =>
      cases h
      rfl
  | cons i rest ih =>
      cases i with
      | plain op offs =>
          rw [runCode_plain] at h
          rw [writes_plain, not_or] at hx
          cases hexec : op.exec amx offs s with
          | error p =>
              rw [hexec] at h
              cases h
          | ok u =>
              rw [hexec] at h hx
              rw [ih h hx.2, Plain.exec_frame hexec hx.1]
      | branch b l =>
          rw [runCode_branch] at h
          rw [writes_branch] at hx
          cases hb : b.taken s with
          | true =>
              rw [hb] at h
              cases h
              rfl
          | false =>
              rw [hb] at h hx
              exact ih h fun hw => hx ⟨rfl, hw⟩

end

/-- Room for two more cells on the stack, where CHKMARGIN leaves sixteen; and the stack does not
reach the highest address. -/
def Room (s : State) : Prop := s.hea.toInt + 8 ≤ s.stk.toInt ∧ s.stk.toInt + 4 < 2 ^ 31

/-- Where a piece of code may be put in place of another: whatever the program reads of its
registers afterwards, short of those in `drop`, it goes on as before. -/
structure Preserves (amx : Segments) (drop : Regs) (side : State → Prop) (find repl : List Instr) :
    Prop where
  live : ∀ {lab out}, drop.Disjoint out → (∀ l ∈ targets find, drop.Disjoint (lab l)) →
    (liveIn lab out repl).Sub (liveIn lab out find)
  agree : ∀ {lab out undef s s'}, drop.Disjoint out →
    (∀ l ∈ targets find, drop.Disjoint (lab l)) → (∀ x, s.Free x → undef x) → Room s → side s →
    Avoids amx undef undef find s → Agree undef (liveIn lab out find) s s' →
    ExitAgree undef (undefinedAt amx undef find s) out lab (runCode amx find s) (runCode amx repl s')

section

variable {amx : Segments} {lab : Cell → Regs} {out drop : Regs} {undef E : Cell → Prop}
  {after after' : State → Cell → Prop} {find repl : List Instr} {cond : State → Prop} {s s' t : State}
  {x : Cell}

theorem ExitAgree.trans {e e' e'' : Exit} (h : ExitAgree undef after out lab e e')
    (h' : ExitAgree undef after' out lab e' e'')
    (hsub : ∀ t t' x, t.stk = t'.stk → t.hea = t'.hea → after' t' x → after t x) :
    ExitAgree undef after out lab e e'' := by
  have hagree {live : Regs} {t t' t'' : State} (h : Agree (after t) live t t')
      (h' : Agree (after' t') live t' t'') : Agree (after t) live t t'' :=
    h.trans (h'.subset fun x => hsub t t' x h.stk h.hea)
  cases e with
  | fall t =>
      cases e' with
      | fall t' =>
          cases e'' with
          | fall t'' => exact hagree h h'
          | jump l'' t'' | error e'' t'' => exact h'
      | jump l' t' | error e' t' => exact absurd h id
  | jump l t =>
      cases e' with
      | jump l' t' =>
          obtain ⟨rfl, h⟩ := h
          cases e'' with
          | jump l'' t'' => exact ⟨h'.1, hagree h h'.2⟩
          | fall t'' | error e'' t'' => exact h'
      | fall t' | error e' t' => exact absurd h id
  | error e t =>
      cases e' with
      | error e' t' =>
          obtain ⟨rfl, h⟩ := h
          cases e'' with
          | error e'' t'' => exact ⟨h'.1, h.trans h'.2⟩
          | fall t'' | jump l'' t'' => exact h'
      | fall t' | jump l' t' => exact absurd h id

theorem ExitAgree.state {e e' : Exit} (h : ExitAgree undef after out lab e e')
    (ht : e'.state = some t) : ∃ u live, e.state = some u ∧ Agree (after u) live u t := by
  cases e with
  | fall u =>
      cases e' with
      | fall t' =>
          cases ht
          exact ⟨u, out, rfl, h⟩
      | jump l' t' | error e' t' => exact absurd h id
  | jump l u =>
      cases e' with
      | jump l' t' =>
          cases ht
          exact ⟨u, lab l, rfl, h.2⟩
      | fall t' | error e' t' => exact absurd h id
  | error e u =>
      cases e' with
      | error e' t' => cases ht
      | fall t' | jump l' t' => exact absurd h id

end

section

variable {amx : Segments} {lab : Cell → Regs} {out drop : Regs} {undef : Cell → Prop}
  {find repl : List Instr} {cond : State → Prop} {s s' t : State} {x : Cell}

theorem Preserves.run_agree (hpres : Preserves amx drop cond find repl) (hout : drop.Disjoint out)
    (hlab : ∀ l ∈ targets find, drop.Disjoint (lab l)) (hroom : Room s') (hcond : cond s')
    (hfree : ∀ x, s.Free x → undef x) (hav : Avoids amx undef undef find s)
    (h : Agree undef (liveIn lab out find) s s') :
    ExitAgree undef (undefinedAt amx undef find s) out lab (runCode amx find s) (runCode amx repl s') ∧
      ∀ t x, (runCode amx repl s').state = some t → ¬ Writes amx x find s → ¬ s.Free x →
        ¬ t.Free x → t.data x = s'.data x := by
  obtain ⟨hsame, hav', hwrites⟩ := Exec.runCode_agree hav (fun _ => id) (fun _ => id) h
  have hfree' (x : Cell) (hx : s'.Free x) : undef x := hfree x (h.free_iff.mpr hx)
  have hrepl := hpres.agree hout hlab (fun _ => id) hroom hcond (hav'.anti hfree' hfree')
    (Agree.refl s'.Free (liveIn lab out find) s')
  refine ⟨(hsame.mono (fun _ => id) fun t x hx => Or.inl hx).trans
    (hrepl.mono hfree' fun _ _ => id) fun t t' x hstk hhea hx => ?_, fun t x ht hw hx hxt => ?_⟩
  · rcases hx with hx | hx
    · exact Or.inl ⟨hfree' x hx.1, fun hw => hx.2 ((hwrites x).mp hw)⟩
    · refine Or.inr ?_
      rwa [State.Free, ← hstk, ← hhea] at hx
  · obtain ⟨u, live, hu, hagree⟩ := hrepl.state ht
    have hw' : ¬ Writes amx x find s' := fun hin => hw ((hwrites x).mpr hin)
    have hdata : u.data x = t.data x := by
      refine hagree.data x ?_
      rintro (hin | hin)
      · exact hx (h.free_iff.mpr hin.1)
      · exact hxt (hagree.free_iff.mp hin)
    rw [← hdata, runCode_frame hu hw']

end

open Foundation

/-! The numbers of the instructions. -/

inductive Operation
  | plain (op : Plain)
  | branch (b : Branch)
  | lctrl
  | sctrl
  | ret
  | retn
  | call
  | callPri
  | jrel
  | halt
  | sysreqPri
  | sysreqC
  | sysreqD
  | jumpPri
  | switch
  | casetbl
  | file
  | line
  | symbol
  | srange
  | symtag
  | brk
  | float
deriving DecidableEq

/-- `OPCODE` from `OP_LOAD_PRI` on -/
def operations : List Operation :=
  [.plain (.get .load .pri), .plain (.get .load .alt), .plain (.get .loadS .pri),
   .plain (.get .loadS .alt), .plain (.lref .pri), .plain (.lref .alt), .plain (.lrefS .pri),
   .plain (.lrefS .alt), .plain .loadI, .plain .lodbI, .plain (.get .const .pri),
   .plain (.get .const .alt), .plain (.get .addr .pri), .plain (.get .addr .alt),
   .plain (.stor .pri), .plain (.stor .alt), .plain (.storS .pri), .plain (.storS .alt),
   .plain (.sref .pri), .plain (.sref .alt), .plain (.srefS .pri), .plain (.srefS .alt),
   .plain .storI, .plain .strbI, .plain .lidx, .plain .lidxB, .plain .idxaddr, .plain .idxaddrB,
   .plain (.align .pri), .plain (.align .alt), .lctrl, .sctrl, .plain (.move .pri),
   .plain (.move .alt), .plain .xchg, .plain (.pushReg .pri), .plain (.pushReg .alt),
   .plain .pushR, .plain (.push .const), .plain (.push .load), .plain (.push .loadS),
   .plain (.pop .pri), .plain (.pop .alt), .plain .stack, .plain .heap, .plain .proc, .ret, .retn,
   .call, .callPri, .branch .jump, .jrel, .branch .jzer, .branch .jnz, .branch (.test .eq),
   .branch (.test .neq), .branch (.test .less), .branch (.test .leq), .branch (.test .grtr),
   .branch (.test .geq), .branch (.test .sless), .branch (.test .sleq), .branch (.test .sgrtr),
   .branch (.test .sgeq), .plain (.operator .shl), .plain (.operator .shr),
   .plain (.operator .sshr), .plain (.shlC .pri), .plain (.shlC .alt), .plain (.shrC .pri),
   .plain (.shrC .alt), .plain (.operator .smul), .plain .sdiv, .plain .sdivAlt,
   .plain (.operator .umul), .plain .udiv, .plain .udivAlt, .plain (.operator .add),
   .plain (.operator .sub), .plain (.operator .subAlt), .plain (.operator .and),
   .plain (.operator .or), .plain (.operator .xor), .plain .not, .plain .neg, .plain .invert,
   .plain .addC, .plain .smulC, .plain (.zeroReg .pri), .plain (.zeroReg .alt), .plain .zero,
   .plain .zeroS, .plain (.sign .pri), .plain (.sign .alt), .plain (.relation .eq),
   .plain (.relation .neq), .plain (.relation .less), .plain (.relation .leq),
   .plain (.relation .grtr), .plain (.relation .geq), .plain (.relation .sless),
   .plain (.relation .sleq), .plain (.relation .sgrtr), .plain (.relation .sgeq),
   .plain (.eqC .pri), .plain (.eqC .alt), .plain (.inc (.reg .pri)), .plain (.inc (.reg .alt)),
   .plain (.inc .data), .plain (.inc .frame), .plain (.inc .ref), .plain (.dec (.reg .pri)),
   .plain (.dec (.reg .alt)), .plain (.dec .data), .plain (.dec .frame), .plain (.dec .ref),
   .plain .movs, .plain .cmps, .plain .fill, .halt, .plain .bounds, .sysreqPri, .sysreqC, .file,
   .line, .symbol, .srange, .jumpPri, .switch, .casetbl, .plain (.swap .pri), .plain (.swap .alt),
   .plain (.push .addr), .plain .nop, .sysreqD, .symtag, .brk, .float, .float, .float, .float,
   .float, .float, .float]

def Operation.ofCode (op : Cell) : Option Operation :=
  if op = 0 then none else operations[op.toNat - 1]?

def Operation.number (operation : Operation) : Cell :=
  BitVec.ofNat 32 (operations.idxOf operation + 1)

/-- The instruction takes a parameter from the code. -/
def Plain.hasParam : Plain → Bool
  | get _ _ | lref _ | lrefS _ | lodbI | stor _ | storS _ | sref _ | srefS _ | strbI | lidxB
  | idxaddrB | align _ | push _ | pushR | stack | heap | shlC _ | shrC _ | addC | smulC | zero
  | zeroS | eqC _ | movs | cmps | fill | bounds => true
  | inc place | dec place => place = .data || place = .frame
  | loadI | storI | lidx | idxaddr | move _ | xchg | pushReg _ | pop _ | proc | operator _ | sdiv
  | sdivAlt | udiv | udivAlt | not | neg | invert | zeroReg _ | sign _ | relation _ | swap _
  | nop => false

end AmxModC.Exec
