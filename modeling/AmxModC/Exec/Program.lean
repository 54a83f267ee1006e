import AmxModC.Exec.Code

namespace AmxModC.Exec

open Foundation Words

/-! Whole programs, as the lines of the assembler stand for them, and runs over them. -/

inductive Target
  | label (l : Cell)
  | func (name : List Byte)
deriving DecidableEq

/-- What a program is made of.  A block is any number of lines that go on or jump; an entry is where
the address of a function points. -/
inductive Item
  | block (code : List Instr)
  | lctrl (index : Cell)
  | sctrl (index : Cell)
  | call (target : Target)
  | ret
  | retn
  | halt (code : Cell)
  | sysreqC (index : Cell)
  | switch (l : Cell)
  | casetbl
  | case (value l : Cell)
  | brk
  | label (l : Cell)
  | entry (name : List Byte)
deriving DecidableEq

def Target.item : Target → Item
  | label l => .label l
  | func name => .entry name

/-- The bytes that an instruction takes in the code. -/
def Instr.size : Instr → Nat
  | plain op _ => if op.hasParam then 8 else 4
  | branch _ _ => 8

def Item.size : Item → Nat
  | block code => (code.map Instr.size).sum
  | lctrl _ | sctrl _ | call _ | halt _ | sysreqC _ | switch _ | case _ _ => 8
  | ret | retn | casetbl | brk => 4
  | label _ | entry _ => 0

def size (P : List Item) : Nat := (P.map Item.size).sum

def behind (x : Item) : List Item → Option (List Item)
  | [] => none
  | y :: rest => (behind x rest).or (if y = x then some rest else none)

/-- A native function: the data it looks at, and from it an error, the result and what it writes. -/
structure Native where
  reads : State → Cell → Prop
  call : State → Cell × Cell × (Cell → Option Byte)
  depends : ∀ s s', s.frm = s'.frm → s.stk = s'.stk → s.hea = s'.hea →
    (∀ x, reads s x → s.data x = s'.data x) → call s = call s'

structure Env where
  amx : Segments
  cod : Cell
  natives : Cell → Native

/-- How a run ends; `wild` where it leaves what is modelled. -/
inductive Result
  | halt (code : Cell) (s : State)
  | error (e : AmxError) (s : State)
  | native (code : Cell) (s : State)
  | wild

structure Config where
  rest : List Item
  state : State

inductive Next
  | go (c : Config)
  | done (r : Result)

def State.setCtrl (s : State) (index : Cell) : State :=
  if index = 2 then { s with hea := s.pri }
  else if index = 4 then { s with stk := s.pri }
  else if index = 5 then { s with frm := s.pri }
  else s

def State.overwrite (s : State) (writes : Cell → Option Byte) : State :=
  { s with data := fun x => (writes x).getD (s.data x) }

def readCases : Nat → List Item → Option (List (Cell × Cell))
  | 0, _ => some []
  | n + 1, .case value l :: rest => (readCases n rest).map ((value, l) :: ·)
  | _ + 1, _ => none

section

variable (env : Env) (P : List Item)

def offset (rest : List Item) : Nat := size P - size rest

/-- The place in the program that an offset in the code stands for. -/
def position (offs : Cell) : Option (List Item) := P.tails.find? fun rest => offset P rest = offs.toNat

def goTo (place : Option (List Item)) (s : State) : Next :=
  match place with
  | some rest => .go ⟨rest, s⟩
  | none => .done .wild

def ctrl (index : Cell) (rest : List Item) (s : State) : Cell :=
  if index = 0 then env.cod
  else if index = 1 then env.cod + BitVec.ofNat 32 (size P)
  else if index = 2 then s.hea
  else if index = 3 then env.amx.stp
  else if index = 4 then s.stk
  else if index = 5 then s.frm
  else if index = 6 then BitVec.ofNat 32 (offset P rest)
  else s.pri

/-- The label that a case table gives for a value. -/
def switchTarget (l value : Cell) : Option Cell :=
  match behind (.label l) P with
  | some (.casetbl :: .case count default :: rest) =>
      (readCases count.toInt.toNat rest).map fun cases =>
        ((cases.find? fun c => c.1 = value).map Prod.snd).getD default
  | _ => none

def step (c : Config) : Next :=
  let s := c.state
  match c.rest with
  | [] => .done .wild
  | .block code :: rest =>
      match runCode env.amx code s with
      | .fall t => .go ⟨rest, t⟩
      | .jump l t => goTo (behind (.label l) P) t
      | .error e t => .done (.error e t)
  | .lctrl index :: rest => .go ⟨rest, { s with pri := ctrl env P index rest s }⟩
  | .sctrl index :: rest =>
      if index = 6 then goTo (position P s.pri) s else .go ⟨rest, s.setCtrl index⟩
  | .call target :: rest =>
      goTo (behind target.item P) (s.push (BitVec.ofNat 32 (offset P rest)))
  | .ret :: _ =>
      let offs := s.data.load (s.stk + 4)
      let t := { s with frm := s.data.load s.stk, stk := s.stk + 8 }
      if size P ≤ offs.toNat then .done (.error .memAccess t) else goTo (position P offs) t
  | .retn :: _ =>
      let offs := s.data.load (s.stk + 4)
      let t := { s with frm := s.data.load s.stk, stk := s.stk + 8 }
      if size P ≤ offs.toNat then .done (.error .memAccess t)
      else goTo (position P offs) { t with stk := t.stk + (t.data.load t.stk + 4) }
  | .halt code :: _ => .done (.halt code s)
  | .sysreqC index :: rest =>
      let out := (env.natives index).call s
      let t := { s.overwrite out.2.2 with pri := out.2.1 }
      if out.1 = 0 then .go ⟨rest, t⟩ else .done (.native out.1 t)
  | .switch l :: _ => goTo ((switchTarget P l s.pri).bind fun l' => behind (.label l') P) s
  | .casetbl :: _ => .done (.error .invInstr s)
  | .case _ _ :: _ => .done .wild
  | .brk :: rest | .label _ :: rest | .entry _ :: rest => .go ⟨rest, s⟩

/-- The loop of `amx_Exec`; `turns` bounds it. -/
def exec : Nat → Config → Option Result
  | 0, _ => none
  | turns + 1, c =>
      match step env P c with
      | .go d => exec turns d
      | .done r => some r

end

section

variable {P rest : List Item} {x y : Item} {offs : Cell}

@[simp] theorem size_nil : size [] = 0 := rfl

@[simp] theorem size_cons (x : Item) (P : List Item) : size (x :: P) = x.size + size P := rfl

@[simp] theorem size_append (P Q : List Item) : size (P ++ Q) = size P + size Q := by
  rw [size, List.map_append, List.sum_append]
  rfl

theorem Instr.size_pos (i : Instr) : 0 < i.size := by
  cases i with
  | plain op offs =>
      rw [Instr.size]
      split <;> decide
  | branch b l => exact Nat.succ_pos 7

theorem size_block_pos {code : List Instr} (h : code ≠ []) : 0 < (Item.block code).size := by
  obtain ⟨i, code, rfl⟩ := List.exists_cons_of_ne_nil h
  rw [Item.size, List.map_cons, List.sum_cons]
  exact Nat.add_pos_left i.size_pos _

theorem size_suffix (h : rest <:+ P) : size rest ≤ size P := by
  obtain ⟨before, rfl⟩ := h
  rw [size_append]
  exact Nat.le_add_left _ _

theorem behind_suffix (h : behind x P = some rest) : x :: rest <:+ P := by
  induction P with
  | nil => cases h
  | cons y P ih =>
      rw [behind] at h
      cases hrest : behind x P with
      | some r =>
          rw [hrest] at h
          cases h
          exact (ih hrest).trans (List.suffix_cons y P)
      | none =>
          rw [hrest, Option.none_or] at h
          split at h
          · next heq =>
              cases h
              rw [heq]
          · cases h

/-- The place is one that a call goes back to: behind a call, or the start of the code. -/
def Returned (P rest : List Item) : Prop := P = rest ∨ ∃ target, .call target :: rest <:+ P

theorem Returned.suffix (h : Returned P rest) : rest <:+ P := by
  rcases h with rfl | ⟨target, h⟩
  · exact List.suffix_rfl
  · exact (List.suffix_cons _ _).trans h

theorem find?_tails {before : List Item} {p : List Item → Bool} (hp : p rest)
    (hnot : ∀ pre, p (pre ++ x :: rest) = false) :
    (before ++ x :: rest).tails.find? p = some rest := by
  induction before with
  | nil =>
      rw [List.nil_append, List.tails, List.find?_cons_of_neg (by simpa using hnot [])]
      cases rest with
      | nil => exact List.find?_cons_of_pos hp
      | cons y rest => exact List.find?_cons_of_pos hp
  | cons y before ih =>
      have hfirst := hnot (y :: before)
      rw [List.cons_append] at hfirst
      rw [List.cons_append, List.tails, List.find?_cons_of_neg (by rw [hfirst]; exact Bool.false_ne_true)]
      exact ih

theorem Returned.position (h : Returned P rest) (hsize : size P < 2 ^ 32) :
    position P (BitVec.ofNat 32 (offset P rest)) = some rest := by
  have hle := size_suffix h.suffix
  have hoffs : (BitVec.ofNat 32 (offset P rest)).toNat = offset P rest := by
    rw [BitVec.toNat_ofNat, Nat.mod_eq_of_lt]
    exact (Nat.sub_le _ _).trans_lt hsize
  rw [Exec.position, hoffs]
  rcases h with rfl | ⟨target, before, rfl⟩
  · cases P <;> simp
  · refine find?_tails (decide_eq_true rfl) fun pre => decide_eq_false ?_
    have hcall : (Item.call target).size = 8 := rfl
    simp only [offset, size_append, size_cons, hcall]
    omega

end

/-! Blocks of several lines run like the lines one by one. -/

def pieces (code : List Instr) : List Item := code.map fun i => .block [i]

def Item.cut : Item → List Item
  | block code => pieces code
  | x => [x]

/-- The program with each line on its own. -/
def cut (P : List Item) : List Item := P.flatMap Item.cut

def Filled (P : List Item) : Prop := .block [] ∉ P

def Lined (P : List Item) : Prop := ∀ code, .block code ∈ P → ∃ i, code = [i]

section

variable {env : Env} {P rest : List Item} {x : Item} {code : List Instr} {c d : Config}

@[simp] theorem cut_nil : cut [] = [] := rfl

@[simp] theorem cut_cons (x : Item) (P : List Item) : cut (x :: P) = x.cut ++ cut P := rfl

@[simp] theorem cut_append (P Q : List Item) : cut (P ++ Q) = cut P ++ cut Q :=
  List.flatMap_append

theorem size_pieces (code : List Instr) : size (pieces code) = (code.map Instr.size).sum := by
  induction code with
  | nil => rfl
  | cons i code ih =>
      rw [pieces, List.map_cons, size_cons, ← pieces, ih]
      rfl

theorem size_item_cut (x : Item) : size x.cut = x.size := by
  cases x with
  | block code => exact size_pieces code
  | _ => rfl

@[simp] theorem size_cut (P : List Item) : size (cut P) = size P := by
  induction P with
  | nil => rfl
  | cons x P ih => rw [cut_cons, size_append, size_item_cut, size_cons, ih]

theorem offset_cut (P rest : List Item) : offset (cut P) (cut rest) = offset P rest := by
  rw [offset, offset, size_cut, size_cut]

theorem Filled.tail (h : Filled (x :: P)) : Filled P := fun hin => h (List.mem_cons_of_mem _ hin)

theorem Lined.filled (h : Lined P) : Filled P := fun hin => by
  obtain ⟨i, heq⟩ := h [] hin
  cases heq

theorem Lined.cut_eq (h : Lined P) : cut P = P := by
  induction P with
  | nil => rfl
  | cons x P ih =>
      have hP : cut P = P := ih fun code hin => h code (List.mem_cons_of_mem x hin)
      rw [cut_cons, hP]
      cases x with
      | block code =>
          obtain ⟨i, rfl⟩ := h code List.mem_cons_self
          rfl
      | _ => rfl

theorem Lined.append {Q : List Item} (h : Lined P) (h' : Lined Q) : Lined (P ++ Q) :=
  fun code hin => (List.mem_append.mp hin).elim (h code) (h' code)

theorem Lined.of_append {Q : List Item} (h : Lined (P ++ Q)) : Lined P ∧ Lined Q :=
  ⟨fun code hin => h code (List.mem_append_left Q hin),
    fun code hin => h code (List.mem_append_right P hin)⟩

theorem behind_pieces (hx : ∀ code, x ≠ .block code) (code : List Instr) (Q : List Item) :
    behind x (pieces code ++ Q) = behind x Q := by
  induction code with
  | nil => rfl
  | cons i code ih =>
      rw [pieces, List.map_cons, List.cons_append, behind, ← pieces, ih,
        if_neg fun heq => hx [i] heq.symm, Option.or_none]

theorem behind_cut (hx : ∀ code, x ≠ .block code) (P : List Item) :
    behind x (cut P) = (behind x P).map cut := by
  induction P with
  | nil => rfl
  | cons y P ih =>
      rw [cut_cons, behind]
      cases y with
      | block code =>
          rw [Item.cut, behind_pieces hx, ih, if_neg fun heq => hx code heq.symm, Option.or_none]
      | _ =>
          rw [Item.cut, List.singleton_append, behind, ih]
          · cases behind x P with
            | some r => rfl
            | none =>
                rw [Option.map_none, Option.none_or, Option.none_or]
                split <;> rfl
          · exact fun code heq => by cases heq

theorem Filled.suffix (h : Filled P) (hrest : rest <:+ P) : Filled rest := fun hin =>
  h (hrest.subset hin)

theorem Filled.block (h : Filled (.block code :: rest)) : code ≠ [] := by
  rintro rfl
  exact h List.mem_cons_self

theorem readCases_cut (h : Filled P) (n : Nat) : readCases n (cut P) = readCases n P := by
  induction n generalizing P with
  | zero => rfl
  | succ n ih =>
      cases P with
      | nil => rfl
      | cons x P =>
          cases x with
          | block code =>
              obtain ⟨i, code, rfl⟩ := List.exists_cons_of_ne_nil h.block
              rfl
          | case value l =>
              change (readCases n (cut P)).map _ = (readCases n P).map _
              rw [ih h.tail]
          | _ => rfl

theorem switchTarget_cut (h : Filled P) (l value : Cell) :
    switchTarget (cut P) l value = switchTarget P l value := by
  rw [switchTarget, switchTarget, behind_cut fun code heq => by cases heq]
  cases hbehind : behind (.label l) P with
  | none => rfl
  | some r =>
      have hr : Filled r := h.suffix ((List.suffix_cons _ _).trans (behind_suffix hbehind))
      cases r with
      | nil => rfl
      | cons x r =>
          cases x with
          | block code =>
              obtain ⟨i, code, rfl⟩ := List.exists_cons_of_ne_nil hr.block
              rfl
          | casetbl =>
              cases r with
              | nil => rfl
              | cons y r =>
                  cases y with
                  | block code =>
                      obtain ⟨i, code, rfl⟩ := List.exists_cons_of_ne_nil hr.tail.block
                      rfl
                  | case count default =>
                      change (readCases _ (cut r)).map _ = (readCases _ r).map _
                      rw [readCases_cut hr.tail.tail]
                  | _ => rfl
          | _ => rfl

theorem find?_self {p : List Item → Bool} (h : p P) : P.tails.find? p = some P := by
  cases P with
  | nil => exact List.find?_cons_of_pos h
  | cons x P => exact List.find?_cons_of_pos h

theorem find?_pieces {p : List Item → Bool} {Q : List Item}
    (h : ∀ before i after, code = before ++ i :: after → p (pieces (i :: after) ++ Q) = false) :
    (pieces code ++ Q).tails.find? p = Q.tails.find? p := by
  induction code with
  | nil => rfl
  | cons i code ih =>
      have hfirst := h [] i code rfl
      rw [pieces, List.map_cons, List.cons_append] at hfirst ⊢
      rw [List.tails, List.find?_cons_of_neg (by rw [hfirst]; exact Bool.false_ne_true)]
      exact ih fun before j after heq => h (i :: before) j after (congrArg (i :: ·) heq)

theorem find?_cut {p : Nat → Bool} (hp : ∀ a ≤ size P, ∀ b ≤ size P, p a → p b → a = b)
    (h : P.tails.find? (fun r => p (size r)) = some rest) :
    (cut P).tails.find? (fun r => p (size r)) = some (cut rest) := by
  induction P with
  | nil =>
      have hrest := List.mem_of_find?_eq_some h
      rw [List.tails, List.mem_singleton] at hrest
      subst hrest
      exact h
  | cons x P ih =>
      by_cases hhere : p (size (x :: P))
      · rw [find?_self (p := fun r => p (size r)) hhere] at h
        cases h
        exact find?_self (p := fun r => p (size r)) (by rwa [size_cut])
      · rw [List.tails, List.find?_cons_of_neg (p := fun r => p (size r)) hhere] at h
        have hle : size P ≤ size (x :: P) := by
          rw [size_cons]
          exact Nat.le_add_left _ _
        have hrest := ih (fun a ha b hb => hp a (ha.trans hle) b (hb.trans hle)) h
        have hfound : p (size rest) := List.find?_some (p := fun r => p (size r)) h
        have hin : size rest ≤ size P := size_suffix ((List.mem_tails _ _).mp (List.mem_of_find?_eq_some h))
        rw [← hrest, cut_cons]
        cases x with
        | block code =>
            refine find?_pieces fun before i after heq => Bool.eq_false_iff.mpr fun hi => ?_
            -- the tails within the block are longer than the one that is looked for
            have hsize : size (pieces (i :: after) ++ cut P) =
                i.size + (size (pieces after) + size P) := by
              rw [size_append, size_cut, size_pieces, size_pieces, List.map_cons, List.sum_cons]
              exact Nat.add_assoc _ _ _
            have hwhole : i.size + (size (pieces after) + size P) ≤ size (.block code :: P) := by
              rw [size_cons, Item.size, heq, List.map_append, List.sum_append, List.map_cons,
                List.sum_cons, size_pieces]
              omega
            have heq := hp _ (hsize ▸ hwhole) _ (hin.trans hle) hi hfound
            have hpos := i.size_pos
            omega
        | _ =>
            rw [Item.cut, List.singleton_append, List.tails, List.find?_cons_of_neg]
            · rw [size_cons, size_cut, ← size_cons]
              exact hhere
            · exact fun code heq => by cases heq

theorem position_cut {offs : Cell} (h : position P offs = some rest) :
    position (cut P) offs = some (cut rest) := by
  rw [position]
  simp only [offset, size_cut]
  refine find?_cut (p := fun s => decide (size P - s = offs.toNat)) (fun a ha b hb heqa heqb => ?_) h
  have heqa := of_decide_eq_true heqa
  have heqb := of_decide_eq_true heqb
  omega

/-- What follows a block, from how it is left. -/
def exitNext (P rest : List Item) : Exit → Next
  | .fall t => .go ⟨rest, t⟩
  | .jump l t => goTo (behind (.label l) P) t
  | .error e t => .done (.error e t)

def follow (env : Env) (P : List Item) (n : Nat) : Next → Option Result
  | .go d => exec env P n d
  | .done r => some r

def Next.cut : Next → Next
  | .go d => .go ⟨Exec.cut d.rest, d.state⟩
  | .done r => .done r

theorem exec_succ (n : Nat) (c : Config) : exec env P (n + 1) c = follow env P n (step env P c) := by
  rw [exec]
  cases step env P c <;> rfl

theorem step_block (s : State) : step env P ⟨.block code :: rest, s⟩ =
    exitNext P rest (runCode env.amx code s) := by
  rw [step]
  dsimp only
  cases runCode env.amx code s <;> rfl

theorem runCode_single (amx : Segments) (i : Instr) (s : State) : runCode amx [i] s = i.exec amx s := by
  rw [runCode]
  cases i.exec amx s <;> rfl

theorem exec_pieces (hcode : code ≠ []) (s : State) : ∃ k, ∀ n,
    exec env P (n + k + 1) ⟨pieces code ++ rest, s⟩ =
      follow env P n (exitNext P rest (runCode env.amx code s)) := by
  induction code generalizing s with
  | nil => exact absurd rfl hcode
  | cons i code ih =>
      have hfirst (n : Nat) : exec env P (n + 1) ⟨pieces (i :: code) ++ rest, s⟩ =
          follow env P n (exitNext P (pieces code ++ rest) (i.exec env.amx s)) := by
        rw [exec_succ, ← runCode_single]
        exact congrArg _ (step_block s)
      rw [runCode]
      cases hi : i.exec env.amx s with
      | fall t =>
          rw [hi] at hfirst
          cases code with
          | nil => exact ⟨0, hfirst⟩
          | cons j code =>
              obtain ⟨k, hk⟩ := ih (List.cons_ne_nil j code) t
              exact ⟨k + 1, fun n => (hfirst (n + (k + 1))).trans (hk n)⟩
      | jump l t =>
          rw [hi] at hfirst
          exact ⟨0, hfirst⟩
      | error e t =>
          rw [hi] at hfirst
          exact ⟨0, hfirst⟩

theorem goTo_cut (place : Option (List Item)) (s : State) :
    goTo (place.map cut) s = (goTo place s).cut := by
  cases place <;> rfl

theorem goTo_behind_cut (hx : ∀ code, x ≠ .block code) (s : State) :
    goTo (behind x (cut P)) s = (goTo (behind x P) s).cut := by
  rw [behind_cut hx, goTo_cut]

theorem goTo_position_cut {offs : Cell} {s : State} (h : goTo (position P offs) s ≠ .done .wild) :
    goTo (position (cut P) offs) s = (goTo (position P offs) s).cut := by
  cases hplace : position P offs with
  | none =>
      rw [hplace] at h
      exact absurd rfl h
  | some r =>
      rw [position_cut hplace]
      rfl

theorem ctrl_cut (index : Cell) (s : State) :
    ctrl env (cut P) index (cut rest) s = ctrl env P index rest s := by
  rw [ctrl, ctrl, size_cut, offset_cut]

theorem exec_cut_step (hP : Filled P) (hc : Filled c.rest) (h : step env P c ≠ .done .wild) :
    ∃ k, ∀ n, exec env (cut P) (n + k + 1) ⟨cut c.rest, c.state⟩ =
      follow env (cut P) n (step env P c).cut := by
  obtain ⟨todo, s⟩ := c
  -- every other item is a line already
  suffices hstep : (∀ code rest, todo ≠ .block code :: rest) →
      step env (cut P) ⟨cut todo, s⟩ = (step env P ⟨todo, s⟩).cut by
    by_cases hblock : ∃ code rest, todo = .block code :: rest
    · obtain ⟨code, rest, rfl⟩ := hblock
      have hpieces : ∃ k, ∀ n, exec env (cut P) (n + k + 1) ⟨pieces code ++ cut rest, s⟩ =
          follow env (cut P) n (exitNext (cut P) (cut rest) (runCode env.amx code s)) :=
        exec_pieces hc.block s
      obtain ⟨k, hk⟩ := hpieces
      refine ⟨k, fun n => (hk n).trans (congrArg _ ?_)⟩
      rw [step_block]
      cases runCode env.amx code s with
      | fall t => rfl
      | jump l t => exact goTo_behind_cut (fun code heq => by cases heq) t
      | error e t => rfl
    · refine ⟨0, fun n => ?_⟩
      rw [Nat.add_zero, exec_succ, hstep fun code rest heq => hblock ⟨code, rest, heq⟩]
  intro hother
  cases todo with
  | nil => rfl
  | cons x rest =>
      rw [cut_cons]
      rw [step] at h
      cases x with
      | block code => exact absurd rfl (hother code rest)
      | lctrl index =>
          rw [step]
          exact congrArg (fun v => Next.go ⟨cut rest, { s with pri := v }⟩) (ctrl_cut index s)
      | sctrl index =>
          rw [step, Item.cut, List.singleton_append, step]
          · dsimp only at h ⊢
            split at h
            · next hcip =>
                rw [if_pos hcip, if_pos hcip]
                exact goTo_position_cut h
            · next hcip =>
                rw [if_neg hcip, if_neg hcip]
                rfl
          · exact fun code heq => by cases heq
      | call target =>
          rw [step, Item.cut, List.singleton_append, step]
          · dsimp only
            rw [offset_cut]
            cases target <;> exact goTo_behind_cut (fun code heq => by cases heq) _
          · exact fun code heq => by cases heq
      | ret | retn =>
          rw [step, Item.cut, List.singleton_append, step]
          · dsimp only at h ⊢
            rw [size_cut]
            split at h
            · next hend =>
                rw [if_pos hend, if_pos hend]
                rfl
            · next hend =>
                rw [if_neg hend, if_neg hend]
                exact goTo_position_cut h
          · exact fun code heq => by cases heq
      | sysreqC index =>
          rw [step, Item.cut, List.singleton_append, step]
          · dsimp only
            split <;> rfl
          · exact fun code heq => by cases heq
      | switch l =>
          rw [step, Item.cut, List.singleton_append, step]
          · dsimp only
            rw [switchTarget_cut hP]
            cases switchTarget P l s.pri with
            | none => rfl
            | some l' => exact goTo_behind_cut (fun code heq => by cases heq) s
          · exact fun code heq => by cases heq
      | halt code | casetbl | case value l | brk | label l | entry name => rfl

theorem goTo_suffix {place : Option (List Item)} {s : State}
    (hplace : ∀ r, place = some r → r <:+ P) (h : goTo place s = .go d) : d.rest <:+ P := by
  cases place with
  | none => cases h
  | some r =>
      cases h
      exact hplace r rfl

theorem position_suffix {offs : Cell} (h : position P offs = some rest) : rest <:+ P :=
  (List.mem_tails _ _).mp (List.mem_of_find?_eq_some h)

theorem behind_tail (h : behind x P = some rest) : rest <:+ P :=
  (List.suffix_cons x rest).trans (behind_suffix h)

theorem step_suffix (hc : c.rest <:+ P) (h : step env P c = .go d) : d.rest <:+ P := by
  obtain ⟨todo, s⟩ := c
  rw [step] at h
  cases todo with
  | nil => cases h
  | cons x rest =>
      have hrest : rest <:+ P := (List.suffix_cons x rest).trans hc
      cases x with
      | block code =>
          dsimp only at h
          cases hrun : runCode env.amx code s with
          | fall t =>
              rw [hrun] at h
              cases h
              exact hrest
          | jump l t =>
              rw [hrun] at h
              exact goTo_suffix (fun r => behind_tail) h
          | error e t =>
              rw [hrun] at h
              cases h
      | sctrl index =>
          dsimp only at h
          split at h
          · exact goTo_suffix (fun r => position_suffix) h
          · cases h
            exact hrest
      | call target => exact goTo_suffix (fun r => behind_tail) h
      | ret | retn =>
          dsimp only at h
          split at h
          · cases h
          · exact goTo_suffix (fun r => position_suffix) h
      | sysreqC index =>
          dsimp only at h
          split at h
          · cases h
            exact hrest
          · cases h
      | switch l =>
          refine goTo_suffix (fun r hr => ?_) h
          obtain ⟨l', -, hl'⟩ := Option.bind_eq_some_iff.mp hr
          exact behind_tail hl'
      | lctrl index | brk | label l | entry name =>
          cases h
          exact hrest
      | halt code | casetbl | case value l => cases h

theorem exec_mono {n : Nat} {r : Result} (h : exec env P n c = some r) (k : Nat) :
    exec env P (n + k) c = some r := by
  induction n generalizing c with
  | zero => cases h
  | succ n ih =>
      rw [exec_succ] at h
      rw [Nat.add_right_comm, exec_succ]
      cases hstep : step env P c with
      | go d =>
          rw [hstep] at h
          exact ih h
      | done r' =>
          rw [hstep] at h
          exact h

theorem exec_none_of_le {m n : Nat} (h : exec env P n c = none) (hle : m ≤ n) :
    exec env P m c = none := by
  cases hm : exec env P m c with
  | none => rfl
  | some r =>
      have hn := exec_mono hm (n - m)
      rw [Nat.add_sub_cancel' hle, h] at hn
      cases hn

/-- A run of the blocks is one of the lines: as long as the blocks do not come to an end the lines
do not, and both come to the same one. -/
theorem exec_cut (hP : Filled P) {n : Nat} (hc : c.rest <:+ P) (h : exec env P n c ≠ some .wild) :
    match exec env P n c with
    | none => exec env (cut P) n ⟨cut c.rest, c.state⟩ = none
    | some r => ∃ m, exec env (cut P) m ⟨cut c.rest, c.state⟩ = some r := by
  induction n generalizing c with
  | zero => rfl
  | succ n ih =>
      rw [exec_succ] at h ⊢
      have hwild : step env P c ≠ .done .wild := by
        intro heq
        rw [heq] at h
        exact h rfl
      obtain ⟨k, hk⟩ := exec_cut_step hP (hP.suffix hc) hwild
      cases hstep : step env P c with
      | done r =>
          rw [hstep] at hk
          exact ⟨0 + k + 1, hk 0⟩
      | go d =>
          rw [hstep] at h hk
          have hrest := ih (step_suffix hc hstep) h
          dsimp only [follow] at h hrest ⊢
          cases hrun : exec env P n d with
          | none =>
              rw [hrun] at hrest
              exact exec_none_of_le ((hk n).trans hrest) (by omega)
          | some r =>
              rw [hrun] at hrest
              obtain ⟨m, hm⟩ := hrest
              exact ⟨m + k + 1, (hk m).trans hm⟩

end

end AmxModC.Exec
