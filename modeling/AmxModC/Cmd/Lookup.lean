import AmxModC.Foundation.Run
import AmxModC.Cmd.Model

namespace AmxModC.Cmd

open Foundation

def Command.core (cmd : Command) : Command := { cmd with cmdtype := 0, prefixSize := 0 }

namespace CmdMngr

abbrev Counts := (Nat → Status) → CmdMngr → BitVec 32 → CmdLink → Bool

def matched : Counts := fun status mngr access link =>
  let cmd := mngr.commands link.cmd
  cmd.gotAccess access && (status cmd.plugin).isExecutable

/-- A plain scan for the command number `id`. -/
def scan (counts : Counts) : GetCmd := fun status mngr id type access =>
  (mngr,
    if id < 0 then mngr.findCmd id type
    else ((mngr.sortedlists type).filter (counts status mngr access))[id.toNat]?.map CmdLink.cmd)

def forget (mngr : CmdMngr) : CmdMngr :=
  { mngr with bufCmdid := -1, bufCmdtype := none, bufCmdaccess := 0, bufCmdptr := none }

def position (mngr : CmdMngr) (type : CmdType) : Nat :=
  (mngr.sortedlists type).length - (ahead (mngr.sortedlists type) mngr.bufCmdptr).length

/-- A link for the command, put in the list, is no link that should have been counted
on the way to the saved position. -/
def Undisturbed (mngr : CmdMngr) (status : Nat → Status) (type : CmdType) (cmd : Nat) : Prop :=
  mngr.bufCmdtype = some type →
    mngr.counted status mngr.bufCmdaccess ⟨mngr.links, cmd⟩ = true →
      mngr.position type < ((mngr.sortedlists type).takeWhile (mngr.passes cmd)).length ∨
        (mngr.bufCmdptr = none ∧
          ((mngr.sortedlists type).countP (mngr.counted status mngr.bufCmdaccess) : Int) <
            mngr.bufCmdid)

instance (mngr : CmdMngr) (status : Nat → Status) (type : CmdType) (cmd : Nat) :
    Decidable (mngr.Undisturbed status type cmd) :=
  inferInstanceAs (Decidable (_ → _ → _))

structure Placed (status : Nat → Status) (mngr : CmdMngr) : Prop where
  nodup : ∀ type, ((mngr.sortedlists type).map CmdLink.addr).Nodup
  fresh : ∀ type, ∀ link ∈ mngr.sortedlists type, link.addr < mngr.links
  valid : ∀ type, ∀ link ∈ mngr.sortedlists type, link.cmd < mngr.count
  cursor : ∀ type, mngr.bufCmdtype = some type →
    ∃ front rest n, mngr.sortedlists type = front ++ rest ∧
      mngr.bufCmdptr = rest.head?.map CmdLink.addr ∧ mngr.bufCmdid = (n : Nat) ∧
      StandsAt (mngr.counted status mngr.bufCmdaccess) front rest n

section

variable {mngr next : CmdMngr} {status : Nat → Status} {type : CmdType} {cmd : Nat}
  {access : BitVec 32} {id : Int} {front rest : List CmdLink}

theorem counted_congr {link : CmdLink}
    (h : (next.commands link.cmd).core = (mngr.commands link.cmd).core) :
    next.counted status access link = mngr.counted status access link := by
  have hflags := congrArg Command.flags h
  have hplugin := congrArg Command.plugin h
  have hlistable := congrArg Command.listable h
  change (next.commands link.cmd).flags = (mngr.commands link.cmd).flags at hflags
  change (next.commands link.cmd).plugin = (mngr.commands link.cmd).plugin at hplugin
  change (next.commands link.cmd).listable = (mngr.commands link.cmd).listable at hlistable
  simp only [counted, Command.gotAccess, hflags, hplugin, hlistable]

theorem passes_congr {link : CmdLink}
    (h : (next.commands link.cmd).core = (mngr.commands link.cmd).core)
    (hcmd : (next.commands cmd).core = (mngr.commands cmd).core) :
    next.passes cmd link = mngr.passes cmd link := by
  have hprecedes : precedes (next.commands cmd).core (next.commands link.cmd).core =
      precedes (mngr.commands cmd).core (mngr.commands link.cmd).core := by rw [h, hcmd]
  exact congrArg (! ·) hprecedes

theorem ahead_eq (hnodup : ((front ++ rest).map CmdLink.addr).Nodup) :
    ahead (front ++ rest) (rest.head?.map CmdLink.addr) = rest := by
  cases rest with
  | nil => rfl
  | cons link rest =>
      rw [List.map_append, List.nodup_append] at hnodup
      have hfront : ∀ passed ∈ front, decide (passed.addr ≠ link.addr) = true := by
        intro passed hpassed
        exact decide_eq_true (hnodup.2.2 _ (List.mem_map_of_mem hpassed) _ (by simp))
      rw [List.head?_cons, Option.map_some, ahead, List.dropWhile_append_of_pos hfront,
        List.dropWhile_cons_of_neg (by simp)]

structure Keeps (mngr next : CmdMngr) : Prop where
  count : mngr.count ≤ next.count
  links : mngr.links ≤ next.links
  commands : ∀ i, i < mngr.count → (next.commands i).core = (mngr.commands i).core
  bufCmdid : next.bufCmdid = mngr.bufCmdid
  bufCmdtype : next.bufCmdtype = mngr.bufCmdtype
  bufCmdaccess : next.bufCmdaccess = mngr.bufCmdaccess
  bufCmdptr : next.bufCmdptr = mngr.bufCmdptr

theorem Keeps.refl (mngr : CmdMngr) : Keeps mngr mngr :=
  ⟨le_rfl, le_rfl, fun _ _ => rfl, rfl, rfl, rfl, rfl⟩

theorem Keeps.trans {last : CmdMngr} (h : Keeps mngr next) (h' : Keeps next last) :
    Keeps mngr last where
  count := h.count.trans h'.count
  links := h.links.trans h'.links
  commands := fun i hi => (h'.commands i (hi.trans_le h.count)).trans (h.commands i hi)
  bufCmdid := h'.bufCmdid.trans h.bufCmdid
  bufCmdtype := h'.bufCmdtype.trans h.bufCmdtype
  bufCmdaccess := h'.bufCmdaccess.trans h.bufCmdaccess
  bufCmdptr := h'.bufCmdptr.trans h.bufCmdptr

theorem Placed.keeps (h : Placed status mngr) (hkeeps : Keeps mngr next)
    (hlists : next.sortedlists = mngr.sortedlists) : Placed status next where
  nodup := by
    rw [hlists]
    exact h.nodup
  fresh := by
    rw [hlists]
    exact fun type link hlink => (h.fresh type link hlink).trans_le hkeeps.links
  valid := by
    rw [hlists]
    exact fun type link hlink => (h.valid type link hlink).trans_le hkeeps.count
  cursor := by
    intro type htype
    rw [hkeeps.bufCmdtype] at htype
    obtain ⟨front, rest, n, hlist, hptr, hid, hstands⟩ := h.cursor type htype
    have hcounted : front.countP (next.counted status mngr.bufCmdaccess) =
        front.countP (mngr.counted status mngr.bufCmdaccess) := by
      refine List.countP_congr fun link hlink => ?_
      have hmem : link ∈ mngr.sortedlists type := hlist ▸ List.mem_append_left rest hlink
      rw [counted_congr (hkeeps.commands _ (h.valid type link hmem))]
    rw [hlists, hkeeps.bufCmdptr, hkeeps.bufCmdid, hkeeps.bufCmdaccess]
    refine ⟨front, rest, n, hlist, hptr, hid, ?_, ?_⟩
    · exact hcounted ▸ hstands.le
    · exact hcounted ▸ hstands.eq

theorem Undisturbed.keeps (h : mngr.Undisturbed status type cmd) (hkeeps : Keeps mngr next)
    (hlist : next.sortedlists type = mngr.sortedlists type)
    (hvalid : ∀ link ∈ mngr.sortedlists type, link.cmd < mngr.count) (hcmd : cmd < mngr.count) :
    next.Undisturbed status type cmd := by
  have hpasses : (mngr.sortedlists type).takeWhile (next.passes cmd) =
      (mngr.sortedlists type).takeWhile (mngr.passes cmd) :=
    takeWhile_congr fun link hlink =>
      passes_congr (hkeeps.commands _ (hvalid link hlink)) (hkeeps.commands _ hcmd)
  have hcountP : (mngr.sortedlists type).countP (next.counted status mngr.bufCmdaccess) =
      (mngr.sortedlists type).countP (mngr.counted status mngr.bufCmdaccess) :=
    List.countP_congr fun link hlink => by
      rw [counted_congr (hkeeps.commands _ (hvalid link hlink))]
  intro htype hcounted
  rw [hkeeps.bufCmdtype] at htype
  rw [hkeeps.bufCmdaccess, counted_congr (hkeeps.commands _ hcmd)] at hcounted
  rw [position, hlist, hkeeps.bufCmdptr, hkeeps.bufCmdaccess, hkeeps.bufCmdid, hpasses,
    hcountP]
  exact h htype hcounted

theorem position_eq (h : Placed status mngr) (hlist : mngr.sortedlists type = front ++ rest)
    (hptr : mngr.bufCmdptr = rest.head?.map CmdLink.addr) :
    mngr.position type = front.length := by
  rw [position, hptr, hlist, ahead_eq (hlist ▸ h.nodup type), List.length_append,
    Nat.add_sub_cancel_right]

theorem Placed.cursor_linkSorted (h : Placed status mngr)
    (hundisturbed : mngr.Undisturbed status type cmd) (htype : mngr.bufCmdtype = some type) :
    ∃ front rest n,
      (mngr.sortedlists type).takeWhile (mngr.passes cmd) ++
        ⟨mngr.links, cmd⟩ :: (mngr.sortedlists type).dropWhile (mngr.passes cmd) =
          front ++ rest ∧
      mngr.bufCmdptr = rest.head?.map CmdLink.addr ∧ mngr.bufCmdid = (n : Nat) ∧
      StandsAt (mngr.counted status mngr.bufCmdaccess) front rest n := by
  obtain ⟨front, rest, n, hlist, hptr, hid, hstands⟩ := h.cursor type htype
  have hposition := position_eq h hlist hptr
  have hpassed := hundisturbed htype
  have hsplit := (@List.takeWhile_append_dropWhile _ (mngr.passes cmd)
    (mngr.sortedlists type)).trans hlist
  generalize (mngr.sortedlists type).takeWhile (mngr.passes cmd) = before at hsplit hpassed
  generalize (mngr.sortedlists type).dropWhile (mngr.passes cmd) = behind at hsplit
  have hbefore : ∀ between, front = before ++ between → behind = between ++ rest →
      ∃ front rest n, before ++ ⟨mngr.links, cmd⟩ :: behind = front ++ rest ∧
        mngr.bufCmdptr = rest.head?.map CmdLink.addr ∧ mngr.bufCmdid = (n : Nat) ∧
        StandsAt (mngr.counted status mngr.bufCmdaccess) front rest n := by
    intro between hfront hbehind
    refine ⟨before ++ ⟨mngr.links, cmd⟩ :: between, rest, n, by simp [hbehind], hptr, hid, ?_⟩
    refine (hfront ▸ hstands).insert_before fun hcounted => ?_
    rcases hpassed hcounted with hlt | ⟨hnone, hlt⟩
    · rw [hposition, hfront, List.length_append] at hlt
      omega
    · have hrest : rest = [] := by
        rw [hptr, Option.map_eq_none_iff, List.head?_eq_none_iff] at hnone
        exact hnone
      rw [hlist, hrest, List.append_nil, hfront, hid] at hlt
      exact ⟨hrest, Int.ofNat_lt.mp hlt⟩
  rcases List.append_eq_append_iff.mp hsplit with ⟨between, hfront, hbehind⟩ | ⟨passed, hfront, hrest⟩
  · exact hbefore between hfront hbehind
  · cases passed with
    | nil => exact hbefore [] (by simpa using hfront.symm) (by simpa using hrest.symm)
    | cons link passed =>
        refine ⟨front, link :: passed ++ ⟨mngr.links, cmd⟩ :: behind, n, by simp [hfront], ?_, hid,
          (hrest ▸ hstands).insert_behind (List.cons_ne_nil _ _)⟩
        rw [hptr, hrest]
        rfl

theorem linkSorted_other (mngr : CmdMngr) (cmd : Nat) {other : CmdType} (hne : other ≠ type) :
    (mngr.linkSorted type cmd).sortedlists other = mngr.sortedlists other :=
  Function.update_of_ne hne _ _

theorem Placed.linkSorted (h : Placed status mngr) (hcmd : cmd < mngr.count)
    (hundisturbed : mngr.Undisturbed status type cmd) :
    Placed status (mngr.linkSorted type cmd) := by
  have hlink : (mngr.linkSorted type cmd).sortedlists type =
      (mngr.sortedlists type).takeWhile (mngr.passes cmd) ++
        ⟨mngr.links, cmd⟩ :: (mngr.sortedlists type).dropWhile (mngr.passes cmd) :=
    Function.update_self _ _ _
  have hperm : List.Perm ((mngr.linkSorted type cmd).sortedlists type)
      (⟨mngr.links, cmd⟩ :: mngr.sortedlists type) := by
    rw [hlink]
    refine List.perm_middle.trans ?_
    rw [List.takeWhile_append_dropWhile]
  refine ⟨fun other => ?_, fun other link hmem => ?_, fun other link hmem => ?_,
    fun other htype => ?_⟩
  · by_cases hne : other = type
    · rw [hne, (hperm.map CmdLink.addr).nodup_iff, List.map_cons, List.nodup_cons]
      refine ⟨fun hmem => ?_, h.nodup type⟩
      obtain ⟨link, hlink, haddr⟩ := List.mem_map.mp hmem
      exact absurd haddr (h.fresh type link hlink).ne
    · rw [linkSorted_other mngr cmd hne]
      exact h.nodup other
  · by_cases hne : other = type
    · rw [hne, hperm.mem_iff, List.mem_cons] at hmem
      rcases hmem with rfl | hmem
      · exact Nat.lt_succ_self _
      · exact (h.fresh type link hmem).trans (Nat.lt_succ_self _)
    · rw [linkSorted_other mngr cmd hne] at hmem
      exact (h.fresh other link hmem).trans (Nat.lt_succ_self _)
  · by_cases hne : other = type
    · rw [hne, hperm.mem_iff, List.mem_cons] at hmem
      rcases hmem with rfl | hmem
      · exact hcmd
      · exact h.valid type link hmem
    · rw [linkSorted_other mngr cmd hne] at hmem
      exact h.valid other link hmem
  · by_cases hne : other = type
    · rw [hne] at htype ⊢
      rw [hlink]
      exact h.cursor_linkSorted hundisturbed htype
    · rw [linkSorted_other mngr cmd hne]
      exact h.cursor other htype

/-! What the operations keep. -/

theorem keeps_registerPrefix (mngr : CmdMngr) (nn : CString) :
    Keeps mngr (mngr.registerPrefix nn) ∧
      (mngr.registerPrefix nn).sortedlists = mngr.sortedlists := by
  rw [registerPrefix]
  split
  next => exact ⟨.refl mngr, rfl⟩
  next =>
      split
      next => exact ⟨.refl mngr, rfl⟩
      next => exact ⟨⟨le_rfl, le_rfl, fun _ _ => rfl, rfl, rfl, rfl, rfl⟩, rfl⟩

theorem update_core (mngr : CmdMngr) {command : Command}
    (h : command.core = (mngr.commands cmd).core) (i : Nat) :
    (Function.update mngr.commands cmd command i).core = (mngr.commands i).core := by
  by_cases hi : i = cmd
  · rw [hi, Function.update_self, h]
  · rw [Function.update_of_ne hi]

theorem keeps_linkSorted (mngr : CmdMngr) (type : CmdType) (cmd : Nat) :
    Keeps mngr (mngr.linkSorted type cmd) :=
  ⟨le_rfl, Nat.le_succ _, fun _ _ => rfl, rfl, rfl, rfl, rfl⟩

theorem keeps_linkPrefix (mngr : CmdMngr) (cmd : Nat) :
    Keeps mngr (mngr.linkPrefix cmd) ∧ (mngr.linkPrefix cmd).sortedlists = mngr.sortedlists := by
  rw [linkPrefix]
  split
  next =>
      refine ⟨⟨le_rfl, Nat.le_succ _, fun i _ => ?_, rfl, rfl, rfl, rfl⟩, rfl⟩
      exact update_core mngr (by rfl) i
  next => exact ⟨⟨le_rfl, Nat.le_succ _, fun _ _ => rfl, rfl, rfl, rfl, rfl⟩, rfl⟩

theorem keeps_markType (mngr : CmdMngr) (cmd : Nat) (cmdtype : BitVec 32) :
    Keeps mngr (mngr.markType cmd cmdtype) :=
  ⟨le_rfl, le_rfl, fun i _ => update_core mngr (by rfl) i, rfl, rfl, rfl, rfl⟩

theorem keeps_linkClient (mngr : CmdMngr) (cmdtype : BitVec 32) (cmd : Nat) :
    Keeps mngr (mngr.linkClient cmdtype cmd) ∧
      (mngr.linkClient cmdtype cmd).sortedlists .serverCommand =
        mngr.sortedlists .serverCommand := by
  rw [linkClient]
  split
  next =>
      obtain ⟨hkeeps, hlists⟩ := keeps_linkPrefix (mngr.linkSorted .clientCommand cmd) cmd
      refine ⟨(keeps_linkSorted _ _ _).trans hkeeps, ?_⟩
      rw [hlists]
      exact linkSorted_other mngr cmd (by decide)
  next => exact ⟨.refl mngr, rfl⟩

theorem Placed.linkClient (h : Placed status mngr) (hcmd : cmd < mngr.count)
    {cmdtype : BitVec 32}
    (hundisturbed : cmdtype &&& 1 ≠ 0 → mngr.Undisturbed status .clientCommand cmd) :
    Placed status (mngr.linkClient cmdtype cmd) := by
  rw [CmdMngr.linkClient]
  split
  next hbit =>
      obtain ⟨hkeeps, hlists⟩ := keeps_linkPrefix (mngr.linkSorted .clientCommand cmd) cmd
      exact (h.linkSorted hcmd (hundisturbed hbit)).keeps hkeeps hlists
  next => exact h

theorem Placed.linkServer (h : Placed status mngr) (hcmd : cmd < mngr.count)
    {cmdtype : BitVec 32}
    (hundisturbed : cmdtype &&& 2 ≠ 0 → mngr.Undisturbed status .serverCommand cmd) :
    Placed status (mngr.linkServer cmdtype cmd) := by
  rw [CmdMngr.linkServer]
  split
  next hbit =>
      exact (h.linkSorted hcmd (hundisturbed hbit)).keeps
        ⟨le_rfl, Nat.le_succ _, fun _ _ => rfl, rfl, rfl, rfl, rfl⟩ rfl
  next => exact h

theorem Placed.newCommand (h : Placed status mngr) {plugin : Nat} {func : Int}
    {text info : CString} {level : BitVec 32} {listable : Bool}
    (hcreated : mngr.newCommand plugin func text info level listable = some next) :
    Placed status next ∧ mngr.count < next.count := by
  obtain ⟨command, -, rfl⟩ := Option.map_eq_some_iff.mp hcreated
  refine ⟨h.keeps ⟨Nat.le_succ _, le_rfl, fun i hi => ?_, rfl, rfl, rfl, rfl⟩ rfl,
    Nat.lt_succ_self _⟩
  change (Function.update mngr.commands mngr.count command i).core = _
  rw [Function.update_of_ne hi.ne]

theorem Placed.setCmdType (h : Placed status mngr) {a : CmdType}
    (hset : mngr.setCmdType cmd a = some next)
    (hclient : ((mngr.commands cmd).cmdtype ||| typeBits a) &&& 1 ≠ 0 →
      mngr.Undisturbed status .clientCommand cmd)
    (hserver : ((mngr.commands cmd).cmdtype ||| typeBits a) &&& 2 ≠ 0 →
      mngr.Undisturbed status .serverCommand cmd) :
    Placed status next := by
  rw [CmdMngr.setCmdType] at hset
  split at hset
  next hcmd =>
      cases hset
      have hmark := keeps_markType mngr cmd ((mngr.commands cmd).cmdtype ||| typeBits a)
      have hmarked := h.keeps hmark rfl
      have hclientMarked := fun hbit =>
        (hclient hbit).keeps hmark rfl (h.valid _) hcmd
      have hlinked := hmarked.linkClient hcmd hclientMarked
      -- the links of the client lists leave the list of server commands alone
      obtain ⟨hlink, hlist⟩ := keeps_linkClient _ ((mngr.commands cmd).cmdtype ||| typeBits a) cmd
      have hkeeps := hmark.trans hlink
      have hserverLinked := fun hbit =>
        (hserver hbit).keeps hkeeps hlist (h.valid _) hcmd
      exact hlinked.linkServer (hcmd.trans_le hkeeps.count) hserverLinked
  next => cases hset

/-! What is saved plays no part in them. -/

theorem forget_registerPrefix (mngr : CmdMngr) (nn : CString) :
    mngr.forget.registerPrefix nn = (mngr.registerPrefix nn).forget := by
  have hfind : mngr.forget.findPrefix nn = mngr.findPrefix nn := rfl
  rw [registerPrefix, registerPrefix, hfind]
  split
  next => rfl
  next =>
      split
      next => rfl
      next => rfl

theorem forget_registerCommand (mngr : CmdMngr) (plugin : Nat) (func : Int)
    (text info : CString) (level : BitVec 32) (listable : Bool) :
    mngr.forget.registerCommand plugin func text info level listable =
      (mngr.registerCommand plugin func text info level listable).map forget := by
  have hid : mngr.forget.uniqueid = mngr.uniqueid := rfl
  rw [registerCommand, registerCommand, newCommand, newCommand, hid]
  cases Command.create plugin text info level func listable (mngr.uniqueid - 1) with
  | none => rfl
  | some command => rfl

theorem forget_linkPrefix (mngr : CmdMngr) (cmd : Nat) :
    mngr.forget.linkPrefix cmd = (mngr.linkPrefix cmd).forget := by
  have hfind : mngr.forget.findPrefix (mngr.forget.commands cmd).command =
      mngr.findPrefix (mngr.commands cmd).command := rfl
  rw [linkPrefix, linkPrefix, hfind]
  split
  next => rfl
  next => rfl

theorem forget_linkClient (mngr : CmdMngr) (cmdtype : BitVec 32) (cmd : Nat) :
    mngr.forget.linkClient cmdtype cmd = (mngr.linkClient cmdtype cmd).forget := by
  rw [linkClient, linkClient]
  split
  next => exact forget_linkPrefix (mngr.linkSorted .clientCommand cmd) cmd
  next => rfl

theorem forget_linkServer (mngr : CmdMngr) (cmdtype : BitVec 32) (cmd : Nat) :
    mngr.forget.linkServer cmdtype cmd = (mngr.linkServer cmdtype cmd).forget := by
  rw [linkServer, linkServer]
  split
  next => rfl
  next => rfl

theorem forget_setCmdType (mngr : CmdMngr) (cmd : Nat) (a : CmdType) :
    mngr.forget.setCmdType cmd a = (mngr.setCmdType cmd a).map forget := by
  have hmark : ∀ cmdtype, mngr.forget.markType cmd cmdtype = (mngr.markType cmd cmdtype).forget :=
    fun _ => rfl
  have hcommands : mngr.forget.commands = mngr.commands := rfl
  have hcount : mngr.forget.count = mngr.count := rfl
  rw [setCmdType, setCmdType, hcount]
  split
  next =>
      simp only [hcommands, hmark, forget_linkClient, forget_linkServer]
      rfl
  next => rfl

theorem forget_getCmd (status : Nat → Status) (mngr : CmdMngr) (id : Int) (type : CmdType)
    (access : BitVec 32) : (getCmd status mngr id type access).1.forget = mngr.forget := by
  rw [getCmd]
  split
  next => rfl
  next => rfl

theorem Placed.cleared (h : Placed status mngr) (status' : Nat → Status) :
    Placed status' mngr.clearBufforedInfo :=
  ⟨h.nodup, h.fresh, h.valid, fun _ htype => nomatch htype⟩

theorem placed_clear (mngr : CmdMngr) (status : Nat → Status) : Placed status mngr.clear :=
  ⟨fun _ => List.nodup_nil, fun _ _ hmem => absurd hmem List.not_mem_nil,
    fun _ _ hmem => absurd hmem List.not_mem_nil, fun _ htype => nomatch htype⟩

theorem Placed.getCmd (h : Placed status mngr) (id : Int) (type : CmdType)
    (access : BitVec 32) :
    (getCmd status mngr id type access).2 = (scan counted status mngr.forget id type access).2 ∧
      Placed status (getCmd status mngr id type access).1 := by
  rw [CmdMngr.getCmd, scan]
  split
  next => exact ⟨rfl, h⟩
  next hid =>
      have hid : (id.toNat : Int) = id := Int.toNat_of_nonneg (not_lt.mp hid)
      have hcounted : mngr.forget.counted status access = mngr.counted status access := rfl
      have hlist : mngr.forget.sortedlists = mngr.sortedlists := rfl
      simp only [hcounted, hlist]
      split
      next =>
          obtain ⟨front, hsplit, hstands⟩ :=
            @seek_split _ (mngr.counted status access) (mngr.sortedlists type) id.toNat
          rw [head?_seek]
          refine ⟨rfl, h.nodup, h.fresh, h.valid, fun other htype => ?_⟩
          obtain rfl : type = other := Option.some.inj htype
          exact ⟨front, _, id.toNat, hsplit, by rw [head?_seek], hid.symm, hstands⟩
      next hsaved =>
          obtain ⟨hle, haccess, htype⟩ : mngr.bufCmdid ≤ id ∧ access = mngr.bufCmdaccess ∧
              some type = mngr.bufCmdtype := by simpa using hsaved
          obtain ⟨front, rest, n, hsplit, hptr, hsavedid, hstands⟩ := h.cursor type htype.symm
          rw [← haccess] at hstands
          have hn : n ≤ id.toNat := by omega
          have hsteps : (id - mngr.bufCmdid).toNat = id.toNat - n := by omega
          have hahead : ahead (mngr.sortedlists type) mngr.bufCmdptr = rest := by
            rw [hptr, hsplit, ahead_eq (hsplit ▸ h.nodup type)]
          obtain ⟨passed, hrest, hstands'⟩ := hstands.seek hn
          rw [hahead, hsteps, hstands.head?_seek hn, hsplit]
          refine ⟨rfl, h.nodup, h.fresh, h.valid, fun other htype' => ?_⟩
          obtain rfl : type = other := Option.some.inj htype'
          refine ⟨front ++ passed, _, id.toNat, ?_, by rw [hstands.head?_seek hn], hid.symm,
            hstands'⟩
          rw [List.append_assoc, ← hrest]
          exact hsplit

end

end CmdMngr

/-! Runs with the lookup that goes on, and with the plain scan. -/

namespace State

def Undisturbed (s : State) : Event → Prop
  | .registerCommand plugin func cmd info level listable =>
      ∀ created ∈ s.mngr.newCommand plugin func cmd info level listable,
        created.Undisturbed s.status .consoleCommand s.mngr.count
  | .setCmdType cmd a =>
      let cmdtype := (s.mngr.commands cmd).cmdtype ||| CmdMngr.typeBits a
      (cmdtype &&& 1 ≠ 0 → s.mngr.Undisturbed s.status .clientCommand cmd) ∧
        (cmdtype &&& 2 ≠ 0 → s.mngr.Undisturbed s.status .serverCommand cmd)
  | _ => True

instance (s : State) : (event : Event) → Decidable (s.Undisturbed event)
  | .registerCommand plugin func cmd info level listable => inferInstanceAs
      (Decidable (∀ created ∈ s.mngr.newCommand plugin func cmd info level listable,
        created.Undisturbed s.status .consoleCommand s.mngr.count))
  | .setCmdType .. => inferInstanceAs (Decidable ((_ → _) ∧ (_ → _)))
  | .registerPrefix _ | .setStatus .. | .pausePlugin _ | .unpausePlugin _ | .getCmd ..
  | .getCmdNum .. | .clear => isTrue trivial

def Scans (counts : CmdMngr.Counts) (status : Nat → Status) (events : List Event) : Prop :=
  (run (step CmdMngr.getCmd) (create status) events).map State.answers =
    (run (step (CmdMngr.scan counts)) (create status) events).map State.answers

instance (counts : CmdMngr.Counts) (status : Nat → Status) (events : List Event) :
    Decidable (Scans counts status events) :=
  inferInstanceAs (Decidable (_ = _))

def forget (s : State) : State := { s with mngr := s.mngr.forget }

structure Related (s plain : State) : Prop where
  same : plain = s.forget
  placed : s.mngr.Placed s.status

section

variable {s plain : State} {event : Event}

theorem related_map {result : Option CmdMngr}
    (hplaced : ∀ next, result = some next → next.Placed s.status) :
    Option.Rel Related (result.map ({ s with mngr := · }))
      ((result.map CmdMngr.forget).map ({ s.forget with mngr := · })) := by
  cases result with
  | none => exact .none
  | some next => exact .some ⟨rfl, hplaced next rfl⟩

theorem related_setStatus (h : Related s plain) (plugin : Nat) (status : Status) :
    Related (s.setStatus plugin status) (plain.setStatus plugin status) := by
  obtain ⟨rfl, hplaced⟩ := h
  exact ⟨rfl, hplaced.cleared _⟩

theorem related_step (h : Related s plain) (hundisturbed : s.Undisturbed event) :
    Option.Rel Related (step CmdMngr.getCmd s event)
      (step (CmdMngr.scan CmdMngr.counted) plain event) := by
  have hsetStatus := related_setStatus h
  obtain ⟨rfl, hplaced⟩ := h
  cases event with
  | registerPrefix nn =>
      obtain ⟨hkeeps, hlists⟩ := CmdMngr.keeps_registerPrefix s.mngr nn
      refine .some ⟨?_, hplaced.keeps hkeeps hlists⟩
      exact congrArg (State.mk · s.status s.answers) (CmdMngr.forget_registerPrefix s.mngr nn)
  | registerCommand plugin func text info level listable =>
      rw [step, step]
      change Option.Rel Related _ ((s.mngr.forget.registerCommand _ _ _ _ _ _).map _)
      rw [CmdMngr.forget_registerCommand]
      refine related_map fun next hnext => ?_
      obtain ⟨created, hcreated, rfl⟩ := Option.map_eq_some_iff.mp hnext
      obtain ⟨hcreatedPlaced, hcount⟩ := hplaced.newCommand hcreated
      exact hcreatedPlaced.linkSorted hcount (hundisturbed created hcreated)
  | setCmdType cmd a =>
      rw [step, step]
      change Option.Rel Related _ ((s.mngr.forget.setCmdType cmd a).map _)
      rw [CmdMngr.forget_setCmdType]
      exact related_map fun next hnext =>
        hplaced.setCmdType hnext hundisturbed.1 hundisturbed.2
  | setStatus plugin status => exact .some (hsetStatus plugin status)
  | pausePlugin plugin =>
      refine .some ?_
      rw [pausePlugin, pausePlugin]
      change Related _ (if (s.status plugin).isValid then _ else _)
      split
      next => exact hsetStatus plugin .paused
      next => exact ⟨rfl, hplaced⟩
  | unpausePlugin plugin =>
      refine .some ?_
      rw [unpausePlugin, unpausePlugin]
      change Related _ (if (s.status plugin).isValid ∧ s.status plugin ≠ .stopped then _ else _)
      split
      next => exact hsetStatus plugin .running
      next => exact ⟨rfl, hplaced⟩
  | getCmd id type access =>
      obtain ⟨hfound, hnext⟩ := hplaced.getCmd id type access
      refine .some ⟨?_, hnext⟩
      have hforget := CmdMngr.forget_getCmd s.status s.mngr id type access
      change State.mk s.mngr.forget s.status (.command (CmdMngr.scan _ _ _ id type access).2 :: _) =
        State.mk (CmdMngr.getCmd _ _ id type access).1.forget s.status
          (.command (CmdMngr.getCmd s.status s.mngr id type access).2 :: s.answers)
      rw [hforget, hfound]
      rfl
  | getCmdNum type access => exact .some ⟨rfl, hplaced⟩
  | clear => exact .some ⟨rfl, CmdMngr.placed_clear _ _⟩

end

/-- The lookup by number answers as a plain scan of the list of the type for the commands
that are listable, accessible and of a running plugin. -/
theorem scans_of_undisturbed (status : Nat → Status) (events : List Event)
    (h : Meets (step CmdMngr.getCmd) Undisturbed (create status) events) :
    Scans CmdMngr.counted status events := by
  have hcreate : Related (create status) (create status) :=
    ⟨rfl, fun _ => List.nodup_nil, fun _ _ hmem => absurd hmem List.not_mem_nil,
      fun _ _ hmem => absurd hmem List.not_mem_nil, fun _ htype => nomatch htype⟩
  have hstep : ∀ {s plain event}, Related s plain → s.Undisturbed event →
      Option.Rel Related (step CmdMngr.getCmd s event)
        (step (CmdMngr.scan CmdMngr.counted) plain event) := related_step
  have hrun := run_related hstep hcreate h
  rw [Scans]
  generalize run (step CmdMngr.getCmd) (create status) events = final at hrun
  generalize run (step (CmdMngr.scan CmdMngr.counted)) (create status) events = final' at hrun
  cases hrun with
  | none => rfl
  | some hrelated =>
      rw [Option.map_some, Option.map_some, hrelated.same]
      rfl

def registered (cmd : Nat) (c : Byte) (hc : (0 : Byte) ∉ [c]) (listable : Bool) : List Event :=
  [.registerCommand 0 0 ⟨[c], hc⟩ default 0 listable, .setCmdType cmd .clientCommand]

theorem scans_registered :
    Scans CmdMngr.counted (fun _ => .running) (registered 0 98 (by decide) true ++
      .getCmd 0 .clientCommand 0 :: registered 1 99 (by decide) true ++
        [.getCmd 1 .clientCommand 0, .pausePlugin 0, .getCmd 1 .clientCommand 0]) :=
  scans_of_undisturbed _ _ (by decide +kernel)

/-- A command hidden from listing is passed over. -/
theorem not_scans_hidden :
    ¬ Scans CmdMngr.matched (fun _ => .running)
      (registered 0 98 (by decide) false ++ [.getCmd 0 .clientCommand 0]) := by
  decide +kernel

/-- A command put in front of the saved position is not found. -/
example :
    ¬ Scans CmdMngr.counted (fun _ => .running) (registered 0 98 (by decide) true ++
      .getCmd 0 .clientCommand 0 :: registered 1 97 (by decide) true ++
        [.getCmd 1 .clientCommand 0]) := by
  decide +kernel

end State

end AmxModC.Cmd
