import AmxModC.CallFunc.Prepare

namespace AmxModC.CallFunc

open Foundation

/-! What `callfunc_end` makes of the pushes before it. -/

structure Sees (caller plugin : Amx) (pushes : Pushes) (entry : Entry) : Prop where
  length : entry.seen.length = pushes.length
  value : ∀ (i : Nat) memory v, pushes[i]? = some (memory, .byval v) →
    entry.seen[i]? = some (Arg.value v)
  cells : ∀ (i : Nat) memory push addr, pushes[i]? = some (memory, push) →
    push.addr? = some addr → ∃ cell, entry.seen[i]? = some (Arg.address cell) ∧
      cell + push.size memory caller ≤ entry.world.hea plugin ∧
      entry.world.memory.fetch plugin cell (push.size memory caller) = push.cells memory caller

def asks (caller : Amx) (cell : Nat) : Memory × Push → Prop
  | (memory, push) =>
      push.copyback = true ∧ ∃ addr, push.addr? = some addr ∧
        addr ≤ cell ∧ cell < addr + push.size memory caller

structure CopiesBack (caller plugin : Amx) (pushes : Pushes) (entry : Entry)
    (left final : Memory) : Prop where
  asked : ∀ (i : Nat) memory push addr first k, pushes[i]? = some (memory, push) →
    push.addr? = some addr → push.copyback = true → k < push.size memory caller →
      entry.seen[i]? = some (Arg.address first) →
        final caller (addr + k) = left plugin (first + k)
  others : ∀ cell, (∀ pushed ∈ pushes, ¬ asks caller cell pushed) →
    final caller cell = left caller cell
  elsewhere : ∀ amx, amx ≠ caller → ∀ cell, final amx cell = left amx cell

def Marshals (caller plugin : Amx) (func : Int) (pushes : Pushes) (w : World) : Prop :=
  ∃ entry, enter w plugin (prepared caller plugin func pushes).params = some entry ∧
    Sees caller plugin (pushes.take callfuncMaxparams) entry ∧
    ∀ (callee : Callee) left g value,
      callee entry.seen entry.world.memory ⟨none, func, []⟩ = (left, g, value) →
        ∃ final, callfuncEnd (prepared caller plugin func pushes) w caller callee =
            some (g, final, ⟨value, false⟩) ∧
          CopiesBack caller plugin (pushes.take callfuncMaxparams) entry left final.memory ∧
          final.hea = w.hea

def Passes (caller : Amx) (pushes : Pushes) : Prop :=
  ∀ (i : Nat) memory push addr o, pushes[i]? = some (memory, push) → push.addr? = some addr →
    pushes.findIdx? (hasAddr addr) = some o →
      push.cells memory caller <+: (row caller pushes).drop (place caller pushes o)

/-- There is room, and what is copied over a cell of the caller last stands there in the row
for each push that asks for the cell; where none does nothing is copied. -/
structure Sound (caller plugin : Amx) (pushes : Pushes) (w : World) : Prop where
  room : w.hea plugin + (row caller pushes).length + World.stkmargin + 2 + pushes.length ≤
    w.stk plugin
  passes : Passes caller pushes
  asked : ∀ (i : Nat) memory push addr o k, pushes[i]? = some (memory, push) →
    push.addr? = some addr → push.copyback = true → k < push.size memory caller →
      pushes.findIdx? (hasAddr addr) = some o →
        lastOver caller pushes (addr + k) = some (place caller pushes o + k)
  others : ∀ cell, (∀ pushed ∈ pushes, ¬ asks caller cell pushed) →
    lastOver caller pushes cell = none

/-- Where the caller's arrays and strings are: `amx_GetAddr` refuses what is between its heap
and its stack. -/
def Valid (w : World) (caller : Amx) (pushes : Pushes) : Prop :=
  ∀ memory push addr, (memory, push) ∈ pushes → push.addr? = some addr →
    addr + push.size memory caller ≤ w.hea caller ∨ w.stk caller ≤ addr

section

variable {caller plugin : Amx} {func : Int} {pushes : Pushes} {params : List Param} {w : World}
  {entry : Entry}

theorem Represents.fetch_row (h : Represents caller pushes params)
    (hentered : Entered w plugin params entry) {m n : Nat} (hle : m + n ≤ (row caller pushes).length) :
    entry.world.memory.fetch plugin (w.hea plugin + m) n = ((row caller pushes).drop m).take n := by
  have hrow := blocks_row plugin (w.hea plugin) params w.memory
  rw [h.sum_eq, h.blocks_eq] at hrow
  rw [hentered.memory, Memory.fetch_part _ _ _ hle, hrow, row]

theorem Represents.seen_address (h : Represents caller pushes params)
    (hentered : Entered w plugin params entry) {i o addr : Nat} {memory : Memory} {push : Push}
    (hi : pushes[i]? = some (memory, push)) (haddr : push.addr? = some addr)
    (ho : pushes.findIdx? (hasAddr addr) = some o) :
    entry.seen[i]? = some (.address (w.hea plugin + place caller pushes o)) := by
  rw [hentered.seen, hentered.args]
  exact h.argument hi haddr ho _

theorem Represents.hea_eq (h : Represents caller pushes params)
    (hentered : Entered w plugin params entry) :
    entry.world.hea plugin = w.hea plugin + (row caller pushes).length := by
  rw [hentered.hea, Function.update_self, h.sum_eq]

theorem Push.length_cells (memory : Memory) (caller : Amx) (push : Push) :
    (push.cells memory caller).length = push.size memory caller :=
  Memory.length_fetch _ _ _ _

theorem Represents.sees_iff (h : Represents caller pushes params)
    (hentered : Entered w plugin params entry) :
    Sees caller plugin pushes entry ↔ Passes caller pushes := by
  constructor
  · intro hsees i memory push addr o hi haddr ho
    obtain ⟨cell, hcell, hle, hcells⟩ := hsees.cells i memory push addr hi haddr
    cases (h.seen_address hentered hi haddr ho).symm.trans hcell
    rw [h.hea_eq hentered] at hle
    rw [← hcells, h.fetch_row hentered (by omega)]
    exact List.take_prefix _ _
  · intro hpasses
    constructor
    case length =>
      rw [hentered.seen, hentered.args, length_secondPass, length_rawArgs, h.length]
    case value =>
      intro i memory v hi
      rw [hentered.seen, hentered.args]
      exact secondPass_value (h.value i memory v hi)
    case cells =>
      intro i memory push addr hi haddr
      obtain ⟨o, -, ho⟩ := findIdx?_of_addr hi haddr
      have hfront := hpasses i memory push addr o hi haddr ho
      have hle := hfront.length_le
      have hplace := place_le caller pushes o
      rw [List.length_drop, Push.length_cells] at hle
      have hall : place caller pushes o + push.size memory caller ≤
          (row caller pushes).length := by omega
      refine ⟨_, h.seen_address hentered hi haddr ho, ?_, ?_⟩
      · rw [h.hea_eq hentered]
        omega
      · rw [h.fetch_row hentered hall, ← Push.length_cells memory caller push]
        exact (List.prefix_iff_eq_take.mp hfront).symm

/-! The way back. -/

theorem mem_zip_iff {α β : Type*} {xs : List α} {ys : List β} {x : α} {y : β} :
    (x, y) ∈ xs.zip ys ↔ ∃ i : Nat, xs[i]? = some x ∧ ys[i]? = some y := by
  rw [List.mem_iff_getElem?]
  exact exists_congr fun i => List.getElem?_zip_eq_some

theorem Represents.apart (h : Represents caller pushes params) (hroom : Room w plugin params)
    (hvalid : caller = plugin → Valid w caller pushes) :
    Apart caller plugin (w.hea plugin) (w.hea plugin + (sizes params).sum)
      (params.zip (secondPass (rawArgs (w.hea plugin) params))) := by
  constructor
  case inside =>
    intro addr alloc copyback first hmem
    obtain ⟨i, hparam, harg⟩ := mem_zip_iff.mp hmem
    cases (secondPass_byref hparam).symm.trans harg
    have hle := offset_add_le_sum (getElem?_sizes hparam)
    change _ + alloc.length ≤ _ at hle
    omega
  case outside =>
    rintro rfl addr alloc copyback first hmem
    obtain ⟨i, hparam, harg⟩ := mem_zip_iff.mp hmem
    obtain ⟨⟨memory, push⟩, hi⟩ : ∃ pushed, pushes[i]? = some pushed := by
      have hlt := (List.getElem?_eq_some_iff.mp hparam).1
      exact ⟨_, List.getElem?_eq_getElem (h.length ▸ hlt)⟩
    rw [Room] at hroom
    rcases h.cases hi with ⟨v, -, hvalue⟩ | ⟨addr', haddr, -, hbyref⟩ | ⟨_, o, -, -, -, hreused⟩
    · cases hparam.symm.trans hvalue
    · cases hparam.symm.trans hbyref
      rw [Push.length_passed]
      rcases hvalid rfl memory push addr (List.mem_of_getElem? hi) haddr with hlow | hhigh
      · exact .inl hlow
      · exact .inr (by omega)
    · cases hparam.symm.trans hreused

def returned (w : World) (entry : Entry) (left : Memory) : World :=
  { entry.world with memory := left, stk := w.stk }

theorem callfuncEnd_of_runs {callee : Callee} {left : Memory} {g : Globals} {value : Int}
    (henter : enter w plugin params = some entry) (hruns : entry.runs = true)
    (hcallee : callee entry.seen entry.world.memory ⟨none, func, []⟩ = (left, g, value)) :
    callfuncEnd ⟨some plugin, func, params⟩ w caller callee =
      some (g, leave caller plugin params entry.args (returned w entry left), ⟨value, false⟩) := by
  change (enter w plugin params).map _ = _
  rw [henter, Option.map_some]
  dsimp only
  rw [hruns, if_pos rfl, if_pos rfl, hcallee]
  rfl

theorem runs_of_callfuncEnd {callee : Callee} {g : Globals} {final : World}
    (henter : enter w plugin params = some entry)
    (h : callfuncEnd ⟨some plugin, func, params⟩ w caller callee = some (g, final, ⟨1, false⟩)) :
    entry.runs = true := by
  change (enter w plugin params).map _ = _ at h
  rw [henter, Option.map_some] at h
  cases hruns : entry.runs with
  | true => rfl
  | false =>
      rw [hruns] at h
      cases h

theorem Represents.leave_caller (h : Represents caller pushes params)
    (hroom : Room w plugin params) (hentered : Entered w plugin params entry)
    (hvalid : caller = plugin → Valid w caller pushes) (left : Memory) (cell : Nat) :
    (leave caller plugin params entry.args (returned w entry left)).memory caller cell =
      ((lastOver caller pushes cell).map fun p => left plugin (w.hea plugin + p)).getD
        (left caller cell) := by
  rw [hentered.args, leave_memory (h.apart hroom hvalid), h.findSome?_written]
  rfl

theorem Represents.copiesBack (h : Represents caller pushes params)
    (hroom : Room w plugin params) (hentered : Entered w plugin params entry)
    (hvalid : caller = plugin → Valid w caller pushes) (hsound : Sound caller plugin pushes w) (left : Memory) :
    CopiesBack caller plugin pushes entry left
      (leave caller plugin params entry.args (returned w entry left)).memory where
  asked := by
    intro i memory push addr first k hi haddr hask hk hfirst
    obtain ⟨o, -, ho⟩ := findIdx?_of_addr hi haddr
    cases (h.seen_address hentered hi haddr ho).symm.trans hfirst
    rw [h.leave_caller hroom hentered hvalid, hsound.asked i memory push addr o k hi haddr hask hk ho,
      Nat.add_assoc]
    rfl
  others := by
    intro cell hnone
    rw [h.leave_caller hroom hentered hvalid, hsound.others cell hnone]
    rfl
  elsewhere := fun amx hne cell => leave_others hne cell

def marked (amx : Amx) (cell : Nat) : Memory :=
  fun owner i => if owner = amx ∧ i = cell then 1 else 0

theorem marked_self (amx : Amx) (cell : Nat) : marked amx cell amx cell = 1 :=
  if_pos ⟨rfl, rfl⟩

theorem eq_of_marked {amx owner : Amx} {cell i : Nat} (h : marked amx cell owner i = 1) :
    owner = amx ∧ i = cell := by
  rw [marked] at h
  split at h
  next heq => exact heq
  next => cases h

theorem Valid.not_between (hvalid : Valid w caller pushes) {i addr cell : Nat} {memory : Memory}
    {push : Push} (hi : pushes[i]? = some (memory, push)) (haddr : push.addr? = some addr)
    (hle : addr ≤ cell) (hlt : cell < addr + push.size memory caller) :
    cell < w.hea caller ∨ w.stk caller ≤ cell := by
  rcases hvalid memory push addr (List.mem_of_getElem? hi) haddr with hlow | hhigh
  · exact .inl (by omega)
  · exact .inr (by omega)

theorem Represents.sound (h : Represents caller pushes params)
    (hroom : Room w plugin params) (hentered : Entered w plugin params entry)
    (hvalid : caller = plugin → Valid w caller pushes) (hpasses : Passes caller pushes)
    (hcopies : ∀ left, CopiesBack caller plugin pushes entry left
      (leave caller plugin params entry.args (returned w entry left)).memory) :
    Sound caller plugin pushes w := by
  have hfits : w.hea plugin + (row caller pushes).length + World.stkmargin + 2 + pushes.length ≤
      w.stk plugin := by
    rw [← h.sum_eq, ← h.length]
    exact hroom
  refine ⟨hfits, hpasses, ?_, ?_⟩
  · intro i memory push addr o k hi haddr hask hk ho
    have hcell : place caller pushes o + k < (row caller pushes).length := by
      have hle := (hpasses i memory push addr o hi haddr ho).length_le
      rw [List.length_drop, Push.length_cells] at hle
      omega
    have hfinal := (hcopies (marked plugin (w.hea plugin + place caller pushes o + k))).asked i
      memory push addr _ k hi haddr hask hk (h.seen_address hentered hi haddr ho)
    rw [h.leave_caller hroom hentered hvalid, marked_self] at hfinal
    cases hover : lastOver caller pushes (addr + k) with
    | none =>
        rw [hover] at hfinal
        obtain ⟨rfl, hsame⟩ := eq_of_marked hfinal
        rcases (hvalid rfl).not_between hi haddr (Nat.le_add_right addr k) (by omega) with hlow | hhigh
        · omega
        · omega
    | some p =>
        rw [hover] at hfinal
        obtain ⟨-, hsame⟩ := eq_of_marked hfinal
        exact congrArg some (by omega)
  · intro cell hnone
    cases hover : lastOver caller pushes cell with
    | none => rfl
    | some p =>
        obtain ⟨i, memory, push, addr, hi, haddr, hfirst, -, hle, hlt, rfl⟩ := lastOver_eq_some hover
        have hcell := @place_add_le caller _ _ _ _ hi hfirst
        have hfinal := (hcopies (marked plugin (w.hea plugin +
          (place caller pushes i + (cell - addr))))).others cell hnone
        rw [h.leave_caller hroom hentered hvalid, hover] at hfinal
        obtain ⟨rfl, hsame⟩ := eq_of_marked (hfinal.symm.trans (marked_self _ _))
        rcases (hvalid rfl).not_between hi haddr hle hlt with hlow | hhigh
        · omega
        · omega

/-- The arguments that have been accepted are passed and copied back as they have been
pushed exactly if they are sound. -/
theorem marshals_iff (caller plugin : Amx) (func : Int) (pushes : Pushes) (w : World)
    (hvalid : caller = plugin → Valid w caller (pushes.take callfuncMaxparams)) :
    Marshals caller plugin func pushes w ↔
      Sound caller plugin (pushes.take callfuncMaxparams) w := by
  obtain ⟨params, hprepared, hrepresents⟩ := represents_pushAll caller plugin func pushes
  rw [Marshals, hprepared]
  constructor
  · rintro ⟨entry, henter, hsees, hcall⟩
    have hruns : entry.runs = true := by
      obtain ⟨final, hend, -, -⟩ := hcall (fun _ memory g => (memory, g, 1)) _ _ _ rfl
      exact runs_of_callfuncEnd henter hend
    obtain ⟨hroom, hentered⟩ := entered_of_runs henter hruns
    refine hrepresents.sound hroom hentered hvalid ((hrepresents.sees_iff hentered).mp hsees)
      fun left => ?_
    obtain ⟨final, hend, hcopies, -⟩ := hcall (fun _ _ g => (left, g, 1)) left _ 1 rfl
    cases (callfuncEnd_of_runs henter hruns rfl).symm.trans hend
    exact hcopies
  · intro hsound
    have hroom : Room w plugin params := by
      have hfits := hsound.room
      rw [← hrepresents.sum_eq, ← hrepresents.length] at hfits
      exact hfits
    obtain ⟨entry, henter, hentered⟩ := entered_of_room hroom
    refine ⟨entry, henter, (hrepresents.sees_iff hentered).mpr hsound.passes, ?_⟩
    intro callee left g value hcallee
    refine ⟨_, callfuncEnd_of_runs henter hentered.runs hcallee,
      hrepresents.copiesBack hroom hentered hvalid hsound left, ?_⟩
    have hhea := @leave_hea plugin (w.hea plugin) params (returned w entry left) entry.args caller
    rw [hentered.args, length_secondPass, length_rawArgs] at hhea
    rw [hentered.args, hhea rfl (fun i addr alloc copyback => secondPass_byref)
      (by rw [returned, hentered.hea, Function.update_self]), returned, hentered.hea,
      Function.update_idem, Function.update_eq_self]

end

def sevens : World := ⟨fun _ _ => 7, fun _ => 8, fun _ => 100⟩

def threePushes : Pushes :=
  [(sevens.memory, .byval 5), (sevens.memory, .array 0 2 []), (sevens.memory, .array 4 1 [0])]

/-- A plugin calls a function of its own. -/
theorem marshals_threePushes : Marshals 0 0 3 threePushes sevens := by
  have hcases : ∀ {i : Nat} {memory push addr}, threePushes[i]? = some (memory, push) →
      push.addr? = some addr → memory = sevens.memory ∧
        (i = 1 ∧ push = .array 0 2 [] ∧ addr = 0 ∨ i = 2 ∧ push = .array 4 1 [0] ∧ addr = 4) := by
    intro i memory push addr hi haddr
    match i, hi with
    | 0, hi =>
        cases hi
        cases haddr
    | 1, hi =>
        cases hi
        cases haddr
        exact ⟨rfl, .inl ⟨rfl, rfl, rfl⟩⟩
    | 2, hi =>
        cases hi
        cases haddr
        exact ⟨rfl, .inr ⟨rfl, rfl, rfl⟩⟩
  refine (marshals_iff 0 0 3 threePushes sevens ?_).mpr ⟨by decide, ?_, ?_, ?_⟩
  · intro _ memory push addr hmem haddr
    obtain ⟨i, hi⟩ := List.mem_iff_getElem?.mp hmem
    rcases hcases hi haddr with ⟨rfl, ⟨rfl, rfl, rfl⟩ | ⟨rfl, rfl, rfl⟩⟩
    · decide
    · decide
  · intro i memory push addr o hi haddr ho
    rcases hcases hi haddr with ⟨rfl, ⟨rfl, rfl, rfl⟩ | ⟨rfl, rfl, rfl⟩⟩
    · cases ho
      decide
    · cases ho
      decide
  · intro i memory push addr o k hi haddr hask hk ho
    rcases hcases hi haddr with ⟨rfl, ⟨rfl, rfl, rfl⟩ | ⟨rfl, rfl, rfl⟩⟩
    · cases ho
      match k, hk with
      | 0, _ => rfl
      | 1, _ => rfl
    · cases hask
  · intro cell hnone
    cases hover : lastOver 0 threePushes cell with
    | none => exact hover
    | some p =>
        obtain ⟨i, memory, push, addr, hi, haddr, -, hcopied, hle, hlt, -⟩ := lastOver_eq_some hover
        rcases hcases hi haddr with ⟨rfl, ⟨rfl, rfl, rfl⟩ | ⟨rfl, rfl, rfl⟩⟩
        · exact absurd ⟨rfl, 0, rfl, hle, hlt⟩ (hnone _ (List.mem_of_getElem? hi))
        · cases hcopied

/-- The cells of the first push of an array are passed for the second push, too. -/
theorem not_marshals_again :
    ¬ Marshals 0 1 3 [(sevens.memory, .array 0 1 []), (sevens.memory, .array 0 2 [])] sevens := by
  rintro ⟨entry, henter, hsees, -⟩
  cases henter
  obtain ⟨cell, hcell, hle, -⟩ := hsees.cells 1 _ _ 0 rfl rfl
  cases hcell
  revert hle
  decide

end AmxModC.CallFunc
