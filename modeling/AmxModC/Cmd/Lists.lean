import Mathlib.Data.Prod.Lex
import AmxModC.Foundation.Sorting
import AmxModC.Cmd.Lookup

namespace AmxModC.Cmd

open Foundation

/-! What is in the sorted lists of the commands, and in which order. -/

namespace Command

def SameKey (c d : Command) : Prop := c.command = d.command ∧ c.argument = d.argument

instance (c d : Command) : Decidable (c.SameKey d) :=
  inferInstanceAs (Decidable (c.command = d.command ∧ c.argument = d.argument))

def key (cmd : Command) : List Nat ×ₗ List Nat :=
  toLex (cmd.command.bytes.map BitVec.toNat, cmd.argument.bytes.map BitVec.toNat)

end Command

namespace CmdMngr

def IsOf (cmdtype : BitVec 32) : CmdType → Prop
  | .consoleCommand => True
  | .clientCommand => cmdtype &&& 1 ≠ 0
  | .serverCommand => cmdtype &&& 2 ≠ 0

def Registered (mngr : CmdMngr) (type : CmdType) (cmd : Nat) : Prop :=
  cmd < mngr.count ∧ IsOf (mngr.commands cmd).cmdtype type

/-- The list is sorted, in the order of its links where the keys are the same, and has the
commands of the type. -/
structure Listed (mngr : CmdMngr) (type : CmdType) : Prop where
  sorted : (mngr.sortedlists type).Pairwise fun a b =>
    precedes (mngr.commands b.cmd) (mngr.commands a.cmd) = false
  linked : (mngr.sortedlists type).Pairwise fun a b =>
    (mngr.commands a.cmd).SameKey (mngr.commands b.cmd) → a.addr < b.addr
  mem : ∀ cmd, cmd ∈ (mngr.sortedlists type).map CmdLink.cmd ↔ mngr.Registered type cmd

structure InOrder (mngr : CmdMngr) (type : CmdType) : Prop extends mngr.Listed type where
  registered : (mngr.sortedlists type).Pairwise fun a b =>
    (mngr.commands a.cmd).SameKey (mngr.commands b.cmd) → a.cmd < b.cmd
  nodup : ((mngr.sortedlists type).map CmdLink.cmd).Nodup

def IdsUnique (mngr : CmdMngr) : Prop :=
  ∀ i < mngr.count, ∀ j < mngr.count, (mngr.commands i).id = (mngr.commands j).id → i = j

end CmdMngr

def State.InTurn (s : State) : Event → Prop
  | .setCmdType cmd _ =>
      (s.mngr.commands cmd).cmdtype = 0 ∧
        ∀ later < s.mngr.count, cmd < later →
          (s.mngr.commands cmd).SameKey (s.mngr.commands later) →
            (s.mngr.commands later).cmdtype = 0
  | _ => True

instance (s : State) : (event : Event) → Decidable (s.InTurn event)
  | .setCmdType cmd _ => inferInstanceAs (Decidable ((s.mngr.commands cmd).cmdtype = 0 ∧
      ∀ later < s.mngr.count, cmd < later →
        (s.mngr.commands cmd).SameKey (s.mngr.commands later) →
          (s.mngr.commands later).cmdtype = 0))
  | .registerPrefix _ | .registerCommand .. | .setStatus .. | .pausePlugin _ | .unpausePlugin _
  | .getCmd .. | .getCmdNum .. | .clear => isTrue trivial

section

variable {c d : Command} {mngr next last : CmdMngr} {cmd : Nat} {type : CmdType}
  {types types' : CmdType → Prop} {cmdtype : BitVec 32}

theorem map_toNat_inj {s t : List Byte} :
    s.map BitVec.toNat = t.map BitVec.toNat ↔ s = t :=
  List.map_inj_right fun _ _ => BitVec.eq_of_toNat_eq

theorem CString.eq_iff {s t : CString} : s.bytes = t.bytes ↔ s = t := by
  cases s
  cases t
  rw [CString.mk.injEq]

theorem Command.key_inj : c.key = d.key ↔ c.SameKey d := by
  rw [key, key, toLex_inj, Prod.mk.injEq, map_toNat_inj, map_toNat_inj, CString.eq_iff,
    CString.eq_iff]
  rfl

theorem precedes_iff : CmdMngr.precedes c d = true ↔ c.key < d.key := by
  rw [CmdMngr.precedes, Command.key, Command.key, Prod.Lex.toLex_lt_toLex]
  simp only [Bool.or_eq_true, Bool.and_eq_true, decide_eq_true_eq, strcmp_neg_iff,
    strcmp_eq_zero, map_toNat_inj]

theorem precedes_eq_false_iff : CmdMngr.precedes c d = false ↔ d.key ≤ c.key := by
  rw [← not_lt, ← precedes_iff, Bool.not_eq_true]

end

namespace CmdMngr

def linkKey (mngr : CmdMngr) (link : CmdLink) : List Nat ×ₗ List Nat :=
  (mngr.commands link.cmd).key

structure Links (mngr next : CmdMngr) (cmd : Nat) (types : CmdType → Prop) : Prop where
  count : next.count = mngr.count
  uniqueid : next.uniqueid = mngr.uniqueid
  links : mngr.links ≤ next.links
  commands : ∀ i, ∃ prefixSize, next.commands i = { mngr.commands i with prefixSize }
  linked : ∀ type, types type → ∃ addr, mngr.links ≤ addr ∧ addr < next.links ∧
    next.sortedlists type = insertBehind mngr.linkKey ⟨addr, cmd⟩ (mngr.sortedlists type)
  others : ∀ type, ¬ types type → next.sortedlists type = mngr.sortedlists type

section

variable {mngr next last : CmdMngr} {cmd : Nat} {type : CmdType}
  {types types' : CmdType → Prop} {cmdtype : BitVec 32}

theorem setCmdLink_eq (mngr : CmdMngr) (list : List CmdLink) (cmd : Nat) :
    mngr.setCmdLink list cmd true = insertBehind mngr.linkKey ⟨mngr.links, cmd⟩ list := by
  have hpasses : mngr.passes cmd =
      fun link => decide (mngr.linkKey link ≤ mngr.linkKey ⟨mngr.links, cmd⟩) := by
    funext link
    rw [passes, Bool.eq_iff_iff, Bool.not_eq_true', precedes_eq_false_iff, decide_eq_true_iff]
    rfl
  rw [setCmdLink, if_pos rfl, hpasses]
  rfl

namespace Links

theorem mem_or (h : Links mngr next cmd types) {link : CmdLink}
    (hlink : link ∈ next.sortedlists type) :
    link ∈ mngr.sortedlists type ∨
      link.cmd = cmd ∧ mngr.links ≤ link.addr ∧ link.addr < next.links := by
  by_cases htype : types type
  · obtain ⟨addr, hle, hlt, hlist⟩ := h.linked type htype
    rw [hlist, (insertBehind_perm mngr.linkKey ⟨addr, cmd⟩ _).mem_iff, List.mem_cons] at hlink
    rcases hlink with rfl | hmem
    · exact .inr ⟨rfl, hle, hlt⟩
    · exact .inl hmem
  · rw [h.others type htype] at hlink
    exact .inl hlink

theorem refl (mngr : CmdMngr) (cmd : Nat) : Links mngr mngr cmd fun _ => False :=
  ⟨rfl, rfl, le_rfl, fun _ => ⟨_, rfl⟩, fun _ hno => hno.elim, fun _ _ => rfl⟩

theorem linkKey_eq (h : Links mngr next cmd types) : next.linkKey = mngr.linkKey := by
  funext link
  obtain ⟨prefixSize, hcommand⟩ := h.commands link.cmd
  rw [linkKey, linkKey, hcommand]
  rfl

theorem cmdtype_eq (h : Links mngr next cmd types) (i : Nat) :
    (next.commands i).cmdtype = (mngr.commands i).cmdtype := by
  obtain ⟨prefixSize, hcommand⟩ := h.commands i
  rw [hcommand]

theorem id_eq (h : Links mngr next cmd types) (i : Nat) :
    (next.commands i).id = (mngr.commands i).id := by
  obtain ⟨prefixSize, hcommand⟩ := h.commands i
  rw [hcommand]

theorem trans (h : Links mngr next cmd types) (h' : Links next last cmd types')
    (hdisjoint : ∀ type, types type → ¬ types' type) :
    Links mngr last cmd fun type => types type ∨ types' type where
  count := h'.count.trans h.count
  uniqueid := h'.uniqueid.trans h.uniqueid
  links := h.links.trans h'.links
  commands := fun i => by
    obtain ⟨prefixSize, hcommand⟩ := h'.commands i
    obtain ⟨before, hbefore⟩ := h.commands i
    exact ⟨prefixSize, by rw [hcommand, hbefore]⟩
  linked := fun type htypes => by
    rcases htypes with hfirst | hsecond
    · obtain ⟨addr, hle, hlt, hlist⟩ := h.linked type hfirst
      refine ⟨addr, hle, hlt.trans_le h'.links, ?_⟩
      rw [h'.others type (hdisjoint type hfirst), hlist]
    · obtain ⟨addr, hle, hlt, hlist⟩ := h'.linked type hsecond
      refine ⟨addr, h.links.trans hle, hlt, ?_⟩
      rw [hlist, h.linkKey_eq, h.others type fun hfirst => hdisjoint type hfirst hsecond]
  others := fun type hno => by
    rw [not_or] at hno
    rw [h'.others type hno.2, h.others type hno.1]

theorem mem_iff (h : Links mngr next cmd types) (type : CmdType) (i : Nat) :
    i ∈ (next.sortedlists type).map CmdLink.cmd ↔
      types type ∧ i = cmd ∨ i ∈ (mngr.sortedlists type).map CmdLink.cmd := by
  by_cases htype : types type
  · obtain ⟨addr, -, -, hlist⟩ := h.linked type htype
    rw [hlist, ((insertBehind_perm mngr.linkKey ⟨addr, cmd⟩ _).map CmdLink.cmd).mem_iff,
      List.map_cons, List.mem_cons, and_iff_right htype]
  · rw [h.others type htype, or_iff_right fun hlinked => htype hlinked.1]

end Links

theorem links_linkSorted (mngr : CmdMngr) (type : CmdType) (cmd : Nat) :
    Links mngr (mngr.linkSorted type cmd) cmd (· = type) where
  count := rfl
  uniqueid := rfl
  links := Nat.le_succ _
  commands := fun _ => ⟨_, rfl⟩
  linked := by
    rintro _ rfl
    refine ⟨mngr.links, le_rfl, Nat.lt_succ_self _, ?_⟩
    rw [← setCmdLink_eq]
    exact Function.update_self _ _ _
  others := fun _ hne => Function.update_of_ne hne _ _

theorem links_linkPrefix (mngr : CmdMngr) (cmd : Nat) :
    Links mngr (mngr.linkPrefix cmd) cmd fun _ => False := by
  rw [linkPrefix]
  split
  next i _ =>
      refine ⟨rfl, rfl, Nat.le_succ _, fun j => ?_, fun _ hno => hno.elim, fun _ _ => rfl⟩
      by_cases hj : j = cmd
      · subst hj
        exact ⟨_, Function.update_self _ _ _⟩
      · exact ⟨_, Function.update_of_ne hj _ _⟩
  next =>
      exact ⟨rfl, rfl, Nat.le_succ _, fun _ => ⟨_, rfl⟩, fun _ hno => hno.elim, fun _ _ => rfl⟩

theorem Links.congr (h : Links mngr next cmd types) (hiff : ∀ type, types type ↔ types' type) :
    Links mngr next cmd types' :=
  funext (fun type => propext (hiff type)) ▸ h

theorem links_linkClient (mngr : CmdMngr) (cmdtype : BitVec 32) (cmd : Nat) :
    Links mngr (mngr.linkClient cmdtype cmd) cmd
      fun type => type = .clientCommand ∧ IsOf cmdtype type := by
  rw [linkClient]
  split
  next hbit =>
      refine ((links_linkSorted mngr .clientCommand cmd).trans (links_linkPrefix _ cmd)
        fun _ _ => id).congr fun type => ?_
      rw [or_false]
      exact ⟨fun htype => ⟨htype, htype ▸ hbit⟩, And.left⟩
  next hbit =>
      refine (Links.refl mngr cmd).congr fun type => ⟨False.elim, ?_⟩
      rintro ⟨rfl, hclient⟩
      exact hbit hclient

theorem links_linkServer (mngr : CmdMngr) (cmdtype : BitVec 32) (cmd : Nat) :
    Links mngr (mngr.linkServer cmdtype cmd) cmd
      fun type => type = .serverCommand ∧ IsOf cmdtype type := by
  rw [linkServer]
  split
  next hbit =>
      have hlinked := links_linkSorted mngr .serverCommand cmd
      refine Links.congr ⟨hlinked.count, hlinked.uniqueid, hlinked.links.trans (Nat.le_succ _),
        hlinked.commands, fun type htype => ?_, hlinked.others⟩ fun type => ?_
      · obtain ⟨addr, hle, hlt, hlist⟩ := hlinked.linked type htype
        exact ⟨addr, hle, hlt.trans (Nat.lt_succ_self _), hlist⟩
      · exact ⟨fun htype => ⟨htype, htype ▸ hbit⟩, And.left⟩
  next hbit =>
      refine (Links.refl mngr cmd).congr fun type => ⟨False.elim, ?_⟩
      rintro ⟨rfl, hserver⟩
      exact hbit hserver

theorem links_setCmdType {a : CmdType} (h : mngr.setCmdType cmd a = some next) :
    cmd < mngr.count ∧
      Links (mngr.markType cmd ((mngr.commands cmd).cmdtype ||| typeBits a)) next cmd fun type =>
        type ≠ .consoleCommand ∧ IsOf ((mngr.commands cmd).cmdtype ||| typeBits a) type := by
  rw [setCmdType] at h
  split at h
  next hcmd =>
      cases h
      refine ⟨hcmd, ((links_linkClient _ _ cmd).trans (links_linkServer _ _ cmd) ?_).congr ?_⟩
      · rintro type ⟨rfl, -⟩ ⟨hserver, -⟩
        cases hserver
      · intro type
        cases type <;> simp
  next => cases h

/-! What the order of the links is, whatever the types. -/

structure Ordered (mngr : CmdMngr) : Prop where
  valid : ∀ type, ∀ link ∈ mngr.sortedlists type, link.cmd < mngr.count
  fresh : ∀ type, ∀ link ∈ mngr.sortedlists type, link.addr < mngr.links
  sorted : ∀ type, (mngr.sortedlists type).Pairwise fun a b => mngr.linkKey a ≤ mngr.linkKey b
  linked : ∀ type, (mngr.sortedlists type).Pairwise fun a b =>
    mngr.linkKey a = mngr.linkKey b → a.addr < b.addr

def Follows (mngr : CmdMngr) (a b : CmdLink) : Prop :=
  a.cmd ≠ b.cmd ∧ (mngr.linkKey a = mngr.linkKey b → a.cmd < b.cmd)

def AllFollow (mngr : CmdMngr) : Prop :=
  ∀ type, (mngr.sortedlists type).Pairwise mngr.Follows

theorem Ordered.keeps (h : Ordered mngr) (hcount : mngr.count ≤ next.count)
    (hlinks : mngr.links ≤ next.links)
    (hkeys : ∀ link, link.cmd < mngr.count → next.linkKey link = mngr.linkKey link)
    (hlists : next.sortedlists = mngr.sortedlists) : Ordered next where
  valid := by
    rw [hlists]
    exact fun type link hlink => (h.valid type link hlink).trans_le hcount
  fresh := by
    rw [hlists]
    exact fun type link hlink => (h.fresh type link hlink).trans_le hlinks
  sorted := by
    rw [hlists]
    refine fun type => (h.sorted type).imp_of_mem fun ha hb hle => ?_
    rwa [hkeys _ (h.valid type _ ha), hkeys _ (h.valid type _ hb)]
  linked := by
    rw [hlists]
    refine fun type => (h.linked type).imp_of_mem fun ha hb hlt => ?_
    rwa [hkeys _ (h.valid type _ ha), hkeys _ (h.valid type _ hb)]

theorem Ordered.follows_congr (h : Ordered mngr)
    (hkeys : ∀ link, link.cmd < mngr.count → next.linkKey link = mngr.linkKey link)
    (hfollows : (mngr.sortedlists type).Pairwise mngr.Follows) :
    (mngr.sortedlists type).Pairwise next.Follows := by
  refine hfollows.imp_of_mem fun ha hb hfollow => ?_
  rwa [Follows, hkeys _ (h.valid type _ ha), hkeys _ (h.valid type _ hb)]

theorem Ordered.links (h : Ordered mngr) (hlinks : Links mngr next cmd types)
    (hcmd : cmd < mngr.count) : Ordered next := by
  refine ⟨fun type link hlink => ?_, fun type link hlink => ?_, fun type => ?_, fun type => ?_⟩
  · rw [hlinks.count]
    rcases hlinks.mem_or hlink with hmem | ⟨rfl, -⟩
    · exact h.valid type link hmem
    · exact hcmd
  · rcases hlinks.mem_or hlink with hmem | ⟨-, -, hlt⟩
    · exact (h.fresh type link hmem).trans_le hlinks.links
    · exact hlt
  · rw [hlinks.linkKey_eq]
    by_cases htype : types type
    · obtain ⟨addr, -, -, hlist⟩ := hlinks.linked type htype
      rw [hlist]
      exact sorted_insertBehind _ (h.sorted type)
    · rw [hlinks.others type htype]
      exact h.sorted type
  · rw [hlinks.linkKey_eq]
    by_cases htype : types type
    · obtain ⟨addr, hle, -, hlist⟩ := hlinks.linked type htype
      rw [hlist]
      refine pairwise_insertBehind (h.sorted type) (h.linked type) (fun link hlink _ _ => ?_)
        fun link _ hlt heq => absurd heq hlt.ne
      exact (h.fresh type link hlink).trans_le hle
    · rw [hlinks.others type htype]
      exact h.linked type

theorem Ordered.follows (h : Ordered mngr) (hlinks : Links mngr next cmd types)
    (hfollows : (mngr.sortedlists type).Pairwise mngr.Follows)
    (hnew : types type → ∀ link ∈ mngr.sortedlists type, ∀ addr, mngr.Follows link ⟨addr, cmd⟩) :
    (next.sortedlists type).Pairwise next.Follows := by
  have hsame : next.Follows = mngr.Follows := by
    funext a b
    rw [Follows, Follows, hlinks.linkKey_eq]
  rw [hsame]
  by_cases htype : types type
  · obtain ⟨addr, -, -, hlist⟩ := hlinks.linked type htype
    rw [hlist]
    refine pairwise_insertBehind (h.sorted type) hfollows
      (fun link hlink _ => hnew htype link hlink addr) fun link hlink hlt => ?_
    exact ⟨(hnew htype link hlink addr).1.symm, fun heq => absurd heq hlt.ne⟩
  · rwa [hlinks.others type htype]

/-! Every state of a run. -/

theorem or_ne_zero {x y : BitVec 32} : x ||| y ≠ 0 ↔ x ≠ 0 ∨ y ≠ 0 :=
  (not_congr BitVec.or_eq_zero_iff).trans not_and_or

theorem isOf_or {x y : BitVec 32} (htype : type ≠ .consoleCommand) :
    IsOf (x ||| y) type ↔ IsOf x type ∨ IsOf y type := by
  cases type with
  | consoleCommand => exact absurd rfl htype
  | clientCommand => rw [IsOf, IsOf, IsOf, BitVec.and_or_distrib_right, or_ne_zero]
  | serverCommand => rw [IsOf, IsOf, IsOf, BitVec.and_or_distrib_right, or_ne_zero]

theorem not_isOf_zero (htype : type ≠ .consoleCommand) : ¬ IsOf 0 type := by
  cases type with
  | consoleCommand => exact absurd rfl htype
  | clientCommand => exact not_not.mpr rfl
  | serverCommand => exact not_not.mpr rfl

structure Kept (mngr : CmdMngr) : Prop extends Ordered mngr where
  uniqueid : mngr.uniqueid = -(mngr.count : Int)
  ids : ∀ i < mngr.count, (mngr.commands i).id = -(i + 1 : Int)
  mem : ∀ type i, i ∈ (mngr.sortedlists type).map CmdLink.cmd ↔ mngr.Registered type i
  console : (mngr.sortedlists .consoleCommand).Pairwise mngr.Follows

theorem Kept.of_eq (h : Kept mngr) (hcommands : next.commands = mngr.commands)
    (hcount : next.count = mngr.count) (huniqueid : next.uniqueid = mngr.uniqueid)
    (hlinks : next.links = mngr.links) (hlists : next.sortedlists = mngr.sortedlists) :
    Kept next ∧ (mngr.AllFollow → next.AllFollow) := by
  obtain ⟨commands, count, uniqueid, links, sortedlists⟩ := next
  dsimp only at hcommands hcount huniqueid hlinks hlists
  subst hcommands hcount huniqueid hlinks hlists
  exact ⟨⟨⟨h.valid, h.fresh, h.sorted, h.linked⟩, h.uniqueid, h.ids, h.mem, h.console⟩, id⟩

theorem kept_clear (hid : mngr.uniqueid = -(mngr.count : Int)) :
    Kept mngr.clear ∧ mngr.clear.AllFollow := by
  refine ⟨⟨⟨?_, ?_, fun _ => .nil, fun _ => .nil⟩, ?_, ?_, fun type i => ?_, .nil⟩, fun _ => .nil⟩
  · exact fun _ _ hmem => absurd hmem List.not_mem_nil
  · exact fun _ _ hmem => absurd hmem List.not_mem_nil
  · change mngr.uniqueid + mngr.count = -((0 : Nat) : Int)
    omega
  · exact fun i hi => absurd hi (Nat.not_lt_zero i)
  · exact iff_of_false List.not_mem_nil fun hregistered => Nat.not_lt_zero i hregistered.1

theorem markType_of_ne {i : Nat} (h : i ≠ cmd) :
    (mngr.markType cmd cmdtype).commands i = mngr.commands i :=
  Function.update_of_ne h _ _

theorem markType_self :
    (mngr.markType cmd cmdtype).commands cmd = { mngr.commands cmd with cmdtype } :=
  Function.update_self _ _ _

theorem linkKey_markType : (mngr.markType cmd cmdtype).linkKey = mngr.linkKey := by
  funext link
  rw [linkKey, linkKey]
  by_cases hlink : link.cmd = cmd
  · rw [hlink, markType_self]
    rfl
  · rw [markType_of_ne hlink]

theorem Ordered.markType (h : Ordered mngr) (cmd : Nat) (cmdtype : BitVec 32) :
    Ordered (mngr.markType cmd cmdtype) :=
  h.keeps le_rfl le_rfl (fun link _ => congrFun linkKey_markType link) rfl

theorem Ordered.follows_markType (h : Ordered mngr)
    (hfollows : (mngr.sortedlists type).Pairwise mngr.Follows) :
    (mngr.sortedlists type).Pairwise (mngr.markType cmd cmdtype).Follows :=
  h.follows_congr (fun link _ => congrFun linkKey_markType link) hfollows

theorem Kept.setCmdType (h : Kept mngr) {a : CmdType} (hset : mngr.setCmdType cmd a = some next) :
    Kept next := by
  obtain ⟨hcmd, hlinks⟩ := links_setCmdType hset
  have hmarked := h.toOrdered.markType cmd ((mngr.commands cmd).cmdtype ||| typeBits a)
  refine ⟨hmarked.links hlinks hcmd, ?_, fun i hi => ?_, fun type i => ?_, ?_⟩
  · rw [hlinks.uniqueid, hlinks.count]
    exact h.uniqueid
  · rw [hlinks.count] at hi
    rw [hlinks.id_eq]
    by_cases hi' : i = cmd
    · rw [hi', markType_self]
      exact h.ids cmd hcmd
    · rw [markType_of_ne hi']
      exact h.ids i hi
  · rw [hlinks.mem_iff, Registered, hlinks.count, hlinks.cmdtype_eq]
    change _ ∨ i ∈ (mngr.sortedlists type).map CmdLink.cmd ↔ i < mngr.count ∧ _
    rw [h.mem, Registered]
    by_cases hi : i = cmd
    · subst hi
      rw [markType_self]
      by_cases htype : type = .consoleCommand
      · subst htype
        exact ⟨fun _ => ⟨hcmd, trivial⟩, fun _ => .inr ⟨hcmd, trivial⟩⟩
      · rw [and_iff_left rfl, and_iff_right htype, and_iff_right hcmd, and_iff_right hcmd]
        exact ⟨fun hor => hor.elim id fun hold => (isOf_or htype).mpr (.inl hold), .inl⟩
    · rw [markType_of_ne hi, or_iff_right fun hlinked => hi hlinked.2]
  · exact hmarked.follows hlinks (h.toOrdered.follows_markType h.console)
      fun hconsole => absurd rfl hconsole.1

theorem Kept.setCmdType_follows (h : Kept mngr) {a : CmdType}
    (hset : mngr.setCmdType cmd a = some next)
    (hfollows : mngr.AllFollow)
    (hnone : (mngr.commands cmd).cmdtype = 0)
    (hlater : ∀ later < mngr.count, cmd < later →
      (mngr.commands cmd).SameKey (mngr.commands later) → (mngr.commands later).cmdtype = 0) :
    next.AllFollow := by
  intro type
  obtain ⟨hcmd, hlinks⟩ := links_setCmdType hset
  have hmarked := h.toOrdered.markType cmd ((mngr.commands cmd).cmdtype ||| typeBits a)
  refine hmarked.follows hlinks (h.toOrdered.follows_markType (hfollows type))
    fun htype link hlink addr => ?_
  have hregistered := (h.mem type link.cmd).mp (List.mem_map_of_mem hlink)
  have htyped : (mngr.commands link.cmd).cmdtype ≠ 0 := fun hzero => by
    rw [Registered, hzero] at hregistered
    exact not_isOf_zero htype.1 hregistered.2
  refine ⟨fun heq => htyped ?_, fun heq => ?_⟩
  · change link.cmd = cmd at heq
    rw [heq, hnone]
  · rw [linkKey_markType] at heq
    by_contra hge
    have hgt : cmd < link.cmd := by
      refine Nat.lt_of_le_of_ne (Nat.not_lt.mp hge) fun hsame => htyped ?_
      rw [← hsame, hnone]
    exact htyped (hlater link.cmd hregistered.1 hgt (Command.key_inj.mp heq.symm))

structure Creates (mngr next : CmdMngr) : Prop where
  count : next.count = mngr.count + 1
  uniqueid : next.uniqueid = mngr.uniqueid - 1
  links : next.links = mngr.links
  lists : next.sortedlists = mngr.sortedlists
  others : ∀ i ≠ mngr.count, next.commands i = mngr.commands i
  id : (next.commands mngr.count).id = mngr.uniqueid - 1
  cmdtype : (next.commands mngr.count).cmdtype = 0

theorem creates_newCommand {plugin : Nat} {func : Int} {text info : CString} {level : BitVec 32}
    {listable : Bool} (h : mngr.newCommand plugin func text info level listable = some next) :
    Creates mngr next := by
  obtain ⟨command, hcommand, rfl⟩ := Option.map_eq_some_iff.mp h
  have hnew : command.id = mngr.uniqueid - 1 ∧ command.cmdtype = 0 := by
    rw [Command.create] at hcommand
    split at hcommand
    next =>
        cases hcommand
        exact ⟨rfl, rfl⟩
    next => cases hcommand
  have hself : Function.update mngr.commands mngr.count command mngr.count = command :=
    Function.update_self _ _ _
  refine ⟨rfl, rfl, rfl, rfl, fun i hi => Function.update_of_ne hi _ _, ?_, ?_⟩
  · exact (congrArg Command.id hself).trans hnew.1
  · exact (congrArg Command.cmdtype hself).trans hnew.2

theorem Creates.linkKey_eq (h : Creates mngr next) (link : CmdLink)
    (hlink : link.cmd < mngr.count) : next.linkKey link = mngr.linkKey link := by
  rw [linkKey, linkKey, h.others _ hlink.ne]

theorem Kept.created (h : Kept mngr) (hcreates : Creates mngr next) :
    Ordered next ∧ ∀ type i, next.Registered type i ↔
      type = .consoleCommand ∧ i = mngr.count ∨ mngr.Registered type i := by
  refine ⟨h.toOrdered.keeps ?_ (Nat.le_of_eq hcreates.links.symm) hcreates.linkKey_eq
    hcreates.lists, fun type i => ?_⟩
  · rw [hcreates.count]
    exact Nat.le_succ _
  · rw [Registered, Registered, hcreates.count]
    by_cases hi : i = mngr.count
    · subst hi
      rw [hcreates.cmdtype, and_iff_right (Nat.lt_succ_self _), and_iff_left rfl,
        or_iff_left fun hbelow => Nat.lt_irrefl _ hbelow.1]
      by_cases htype : type = .consoleCommand
      · subst htype
        exact ⟨fun _ => rfl, fun _ => trivial⟩
      · exact iff_of_false (not_isOf_zero htype) htype
    · rw [hcreates.others i hi, or_iff_right fun hnew => hi hnew.2]
      exact and_congr_left fun _ => ⟨fun hlt => by omega, fun hlt => by omega⟩

theorem Kept.registerCommand (h : Kept mngr) {plugin : Nat} {func : Int} {text info : CString}
    {level : BitVec 32} {listable : Bool}
    (hregistered : mngr.registerCommand plugin func text info level listable = some next) :
    Kept next ∧ (mngr.AllFollow → next.AllFollow) := by
  obtain ⟨created, hcreated, rfl⟩ := Option.map_eq_some_iff.mp hregistered
  have hcreates := creates_newCommand hcreated
  have hlinks := links_linkSorted created .consoleCommand mngr.count
  obtain ⟨hordered, hmem⟩ := h.created hcreates
  have hcount : mngr.count < created.count := by
    rw [hcreates.count]
    exact Nat.lt_succ_self _
  have hfollows : ∀ type, (mngr.sortedlists type).Pairwise mngr.Follows →
      ((created.linkSorted .consoleCommand mngr.count).sortedlists type).Pairwise
        (created.linkSorted .consoleCommand mngr.count).Follows := by
    intro type hpairwise
    refine hordered.follows hlinks ?_ fun _ link hlink addr => ?_
    · rw [hcreates.lists]
      exact h.toOrdered.follows_congr hcreates.linkKey_eq hpairwise
    · rw [hcreates.lists] at hlink
      have hlt := h.valid type link hlink
      exact ⟨hlt.ne, fun _ => hlt⟩
  refine ⟨⟨hordered.links hlinks hcount, ?_, fun i hi => ?_, fun type i => ?_,
    hfollows _ h.console⟩, fun hall type => hfollows type (hall type)⟩
  · rw [hlinks.uniqueid, hlinks.count, hcreates.uniqueid, hcreates.count, h.uniqueid]
    omega
  · rw [hlinks.count, hcreates.count] at hi
    rw [hlinks.id_eq]
    by_cases hi' : i = mngr.count
    · rw [hi', hcreates.id, h.uniqueid]
      omega
    · rw [hcreates.others i hi']
      exact h.ids i (by omega)
  · rw [hlinks.mem_iff, hcreates.lists, h.mem, ← hmem, Registered, Registered, hlinks.count,
      hlinks.cmdtype_eq]

theorem kept_registerPrefix (h : Kept mngr) (nn : CString) :
    Kept (mngr.registerPrefix nn) ∧ (mngr.AllFollow → (mngr.registerPrefix nn).AllFollow) := by
  rw [registerPrefix]
  split
  next => exact ⟨h, id⟩
  next =>
      split
      next => exact ⟨h, id⟩
      next => exact h.of_eq rfl rfl rfl rfl rfl

theorem kept_getCmd (h : Kept mngr) (status : Nat → Status) (id : Int) (type : CmdType)
    (access : BitVec 32) :
    Kept (getCmd status mngr id type access).1 ∧
      (mngr.AllFollow → (getCmd status mngr id type access).1.AllFollow) := by
  rw [getCmd]
  split
  next => exact ⟨h, fun hall => hall⟩
  next => exact h.of_eq rfl rfl rfl rfl rfl

theorem Kept.listed (h : Kept mngr) (type : CmdType) : mngr.Listed type where
  sorted := (h.sorted type).imp fun hle => precedes_eq_false_iff.mpr hle
  linked := (h.linked type).imp fun hlt hsame => hlt (Command.key_inj.mpr hsame)
  mem := h.mem type

theorem Kept.inOrder (h : Kept mngr) (hfollows : (mngr.sortedlists type).Pairwise mngr.Follows) :
    mngr.InOrder type where
  toListed := h.listed type
  registered := hfollows.imp fun hfollow hsame => hfollow.2 (Command.key_inj.mpr hsame)
  nodup := List.pairwise_map.mpr (hfollows.imp And.left)

end

end CmdMngr

namespace State

variable {s next : State} {event : Event}

theorem kept_setStatus (h : s.mngr.Kept) (plugin : Nat) (status : Status) :
    (s.setStatus plugin status).mngr.Kept ∧
      (s.mngr.AllFollow → (s.setStatus plugin status).mngr.AllFollow) :=
  h.of_eq rfl rfl rfl rfl rfl

theorem kept_step (h : s.mngr.Kept) (hstep : step CmdMngr.getCmd s event = some next) :
    next.mngr.Kept ∧ (s.InTurn event → s.mngr.AllFollow → next.mngr.AllFollow) := by
  cases event with
  | registerPrefix nn =>
      cases hstep
      obtain ⟨hkept, hfollows⟩ := CmdMngr.kept_registerPrefix h nn
      exact ⟨hkept, fun _ => hfollows⟩
  | registerCommand plugin func cmd info level listable =>
      obtain ⟨mngr, hmngr, rfl⟩ := Option.map_eq_some_iff.mp hstep
      obtain ⟨hkept, hfollows⟩ := h.registerCommand hmngr
      exact ⟨hkept, fun _ => hfollows⟩
  | setCmdType cmd a =>
      obtain ⟨mngr, hmngr, rfl⟩ := Option.map_eq_some_iff.mp hstep
      exact ⟨h.setCmdType hmngr, fun hturn hfollows =>
        h.setCmdType_follows hmngr hfollows hturn.1 hturn.2⟩
  | setStatus plugin status =>
      cases hstep
      obtain ⟨hkept, hfollows⟩ := kept_setStatus h plugin status
      exact ⟨hkept, fun _ => hfollows⟩
  | pausePlugin plugin =>
      cases hstep
      rw [pausePlugin]
      obtain ⟨hkept, hfollows⟩ := kept_setStatus h plugin .paused
      split
      next => exact ⟨hkept, fun _ => hfollows⟩
      next => exact ⟨h, fun _ hall => hall⟩
  | unpausePlugin plugin =>
      cases hstep
      rw [unpausePlugin]
      obtain ⟨hkept, hfollows⟩ := kept_setStatus h plugin .running
      split
      next => exact ⟨hkept, fun _ => hfollows⟩
      next => exact ⟨h, fun _ hall => hall⟩
  | getCmd id type access =>
      cases hstep
      obtain ⟨hkept, hfollows⟩ := CmdMngr.kept_getCmd h s.status id type access
      exact ⟨hkept, fun _ => hfollows⟩
  | getCmdNum type access =>
      cases hstep
      exact ⟨h, fun _ hall => hall⟩
  | clear =>
      cases hstep
      obtain ⟨hkept, hfollows⟩ := CmdMngr.kept_clear h.uniqueid
      exact ⟨hkept, fun _ _ => hfollows⟩

theorem kept_create (status : Nat → Status) :
    (create status).mngr.Kept ∧ (create status).mngr.AllFollow :=
  CmdMngr.kept_clear (rfl : CmdMngr.create.uniqueid = -(CmdMngr.create.count : Int))

def crossed : List Event :=
  [.registerCommand 0 0 ⟨[109], by decide⟩ default 0 true,
    .registerCommand 0 0 ⟨[109], by decide⟩ default 0 true, .setCmdType 1 .clientCommand,
    .setCmdType 0 .clientCommand]

end State

end AmxModC.Cmd
