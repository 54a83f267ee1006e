import Mathlib.Data.List.Infix
import Mathlib.Logic.Function.Basic
import AmxModC.Foundation.CString
import AmxModC.Foundation.Cursor
import AmxModC.Foundation.Run
import AmxModC.Plugin

namespace AmxModC.Cmd

open Foundation

/-! CCmd.cpp: the commands that plugins register, in sorted lists, and the lookup by
number that goes on where the last one has stopped. -/

inductive CmdType
  | consoleCommand
  | clientCommand
  | serverCommand
deriving DecidableEq

structure Command where
  plugin : Nat
  command : CString
  argument : CString
  commandline : CString
  info : CString
  listable : Bool
  function : Int
  flags : BitVec 32
  id : Int
  cmdtype : BitVec 32
  prefixSize : Nat
deriving DecidableEq, Inhabited

namespace Command

def gotAccess (cmd : Command) (f : BitVec 32) : Bool := cmd.flags = 0 || cmd.flags &&& f ≠ 0

/-- White space of `sscanf`. -/
def isspace (c : Byte) : Bool := c = 32 || (9 ≤ c.toNat && c.toNat ≤ 13)

/-- One `%s` of `sscanf`, and what it leaves. -/
def word (text : List Byte) : List Byte × List Byte :=
  let text := text.dropWhile isspace
  (text.takeWhile (!isspace ·), text.dropWhile (!isspace ·))

theorem word_noNul {text : List Byte} (h : (0 : Byte) ∉ text) :
    (0 : Byte) ∉ (word text).1 ∧ (0 : Byte) ∉ (word text).2 := by
  have hdropped : (0 : Byte) ∉ text.dropWhile isspace :=
    fun hmem => h ((List.dropWhile_sublist _).mem hmem)
  exact ⟨fun hmem => hdropped ((List.takeWhile_sublist _).mem hmem),
    fun hmem => hdropped ((List.dropWhile_sublist _).mem hmem)⟩

/-- The constructor; `none` is a word too long for its 64 bytes. -/
def create (plugin : Nat) (pcmd info : CString) (flags : BitVec 32) (function : Int)
    (listable : Bool) (id : Int) : Option Command :=
  let szCmd : CString := ⟨(word pcmd.bytes).1, (word_noNul pcmd.noNul).1⟩
  let rest : CString := ⟨(word pcmd.bytes).2, (word_noNul pcmd.noNul).2⟩
  let szArg : CString := ⟨(word rest.bytes).1, (word_noNul rest.noNul).1⟩
  if szCmd.size < 64 ∧ szArg.size < 64 then
    some ⟨plugin, szCmd, szArg, pcmd, info, listable, function, flags, id, 0, 0⟩
  else none

end Command

structure CmdLink where
  addr : Nat
  cmd : Nat
deriving DecidableEq

structure CmdPrefix where
  name : CString
  list : List CmdLink
deriving DecidableEq

/-- `bufCmdtype` is `none` for the -1 of the source.  What only `getCmdNum` writes and
nothing reads is left out. -/
structure CmdMngr where
  commands : Nat → Command
  count : Nat
  uniqueid : Int
  links : Nat
  sortedlists : CmdType → List CmdLink
  srvcmdlist : List CmdLink
  clcmdlist : List CmdLink
  prefixes : List CmdPrefix
  bufCmdid : Int
  bufCmdtype : Option CmdType
  bufCmdaccess : BitVec 32
  bufCmdptr : Option Nat

namespace CmdMngr

def create : CmdMngr :=
  ⟨fun _ => default, 0, 0, 0, fun _ => [], [], [], [], -1, none, 0, none⟩

def clearBufforedInfo (mngr : CmdMngr) : CmdMngr :=
  { mngr with bufCmdid := -1, bufCmdtype := none, bufCmdaccess := 0 }

/-! Registration. -/

def precedes (c d : Command) : Bool :=
  let i := strcmp c.command.bytes d.command.bytes
  i < 0 || (i = 0 && strcmp c.argument.bytes d.argument.bytes < 0)

/-- The loop of `setCmdLink` passes this link. -/
def passes (mngr : CmdMngr) (cmd : Nat) (link : CmdLink) : Bool :=
  !precedes (mngr.commands cmd) (mngr.commands link.cmd)

def setCmdLink (mngr : CmdMngr) (list : List CmdLink) (cmd : Nat) (sorted : Bool) :
    List CmdLink :=
  if sorted then
    list.takeWhile (mngr.passes cmd) ++ ⟨mngr.links, cmd⟩ :: list.dropWhile (mngr.passes cmd)
  else list ++ [⟨mngr.links, cmd⟩]

def linkSorted (mngr : CmdMngr) (type : CmdType) (cmd : Nat) : CmdMngr :=
  { mngr with
    sortedlists := Function.update mngr.sortedlists type
      (mngr.setCmdLink (mngr.sortedlists type) cmd true)
    links := mngr.links + 1 }

def findPrefix (mngr : CmdMngr) (nn : CString) : Option Nat :=
  mngr.prefixes.findIdx? fun p => decide (p.name.bytes <+: nn.bytes)

def registerPrefix (mngr : CmdMngr) (nn : CString) : CmdMngr :=
  if nn.size = 0 then mngr
  else
    match mngr.findPrefix nn with
    | some _ => mngr
    | none => { mngr with prefixes := mngr.prefixes ++ [⟨nn, []⟩] }

/-- `registerCmdPrefix`, else the list of the client commands without a prefix. -/
def linkPrefix (mngr : CmdMngr) (cmd : Nat) : CmdMngr :=
  match mngr.findPrefix (mngr.commands cmd).command with
  | some i =>
      let cmdPrefix := mngr.prefixes.getD i ⟨default, []⟩
      { mngr with
        prefixes := mngr.prefixes.set i
          { cmdPrefix with list := mngr.setCmdLink cmdPrefix.list cmd false }
        commands := Function.update mngr.commands cmd
          { mngr.commands cmd with prefixSize := cmdPrefix.name.size }
        links := mngr.links + 1 }
  | none =>
      { mngr with
        clcmdlist := mngr.setCmdLink mngr.clcmdlist cmd false
        links := mngr.links + 1 }

def linkClient (mngr : CmdMngr) (cmdtype : BitVec 32) (cmd : Nat) : CmdMngr :=
  if cmdtype &&& 1 ≠ 0 then (mngr.linkSorted .clientCommand cmd).linkPrefix cmd else mngr

def linkServer (mngr : CmdMngr) (cmdtype : BitVec 32) (cmd : Nat) : CmdMngr :=
  if cmdtype &&& 2 ≠ 0 then
    let mngr := mngr.linkSorted .serverCommand cmd
    { mngr with
      srvcmdlist := mngr.setCmdLink mngr.srvcmdlist cmd false
      links := mngr.links + 1 }
  else mngr

def newCommand (mngr : CmdMngr) (plugin : Nat) (func : Int) (cmd info : CString)
    (level : BitVec 32) (listable : Bool) : Option CmdMngr :=
  (Command.create plugin cmd info level func listable (mngr.uniqueid - 1)).map fun command =>
    { mngr with
      commands := Function.update mngr.commands mngr.count command
      count := mngr.count + 1
      uniqueid := mngr.uniqueid - 1 }

def registerCommand (mngr : CmdMngr) (plugin : Nat) (func : Int) (cmd info : CString)
    (level : BitVec 32) (listable : Bool) : Option CmdMngr :=
  (mngr.newCommand plugin func cmd info level listable).map fun created =>
    created.linkSorted .consoleCommand mngr.count

def typeBits : CmdType → BitVec 32
  | .consoleCommand => 3
  | .clientCommand => 1
  | .serverCommand => 2

def markType (mngr : CmdMngr) (cmd : Nat) (cmdtype : BitVec 32) : CmdMngr :=
  { mngr with commands := Function.update mngr.commands cmd { mngr.commands cmd with cmdtype } }

/-- `none` is a command that there is not. -/
def setCmdType (mngr : CmdMngr) (cmd : Nat) (a : CmdType) : Option CmdMngr :=
  if cmd < mngr.count then
    let cmdtype := (mngr.commands cmd).cmdtype ||| typeBits a
    some (((mngr.markType cmd cmdtype).linkClient cmdtype cmd).linkServer cmdtype cmd)
  else none

def clear (mngr : CmdMngr) : CmdMngr :=
  { mngr with
    count := 0
    uniqueid := mngr.uniqueid + mngr.count
    sortedlists := fun _ => []
    srvcmdlist := []
    clcmdlist := []
    prefixes := [] }.clearBufforedInfo

/-! Lookup. -/

variable (status : Nat → Status)

/-- The test in the loops of `getCmd` and `getCmdNum`. -/
def counted (mngr : CmdMngr) (access : BitVec 32) (link : CmdLink) : Bool :=
  let cmd := mngr.commands link.cmd
  cmd.gotAccess access && (status cmd.plugin).isExecutable && cmd.listable

def ahead (list : List CmdLink) : Option Nat → List CmdLink
  | none => []
  | some addr => list.dropWhile (·.addr ≠ addr)

/-- The loop of `getCmd` over the commands with an id. -/
def findCmd (mngr : CmdMngr) (id : Int) (type : CmdType) : Option Nat :=
  ((mngr.sortedlists type).find? fun link => (mngr.commands link.cmd).id = id).map CmdLink.cmd

abbrev GetCmd := (Nat → Status) → CmdMngr → Int → CmdType → BitVec 32 → CmdMngr × Option Nat

/-- The numbers are cells, so that they fit the `int` of the buffer. -/
def getCmd : GetCmd := fun status mngr id type access =>
  if id < 0 then (mngr, mngr.findCmd id type)
  else
    let anew := id < mngr.bufCmdid ∨ access ≠ mngr.bufCmdaccess ∨ some type ≠ mngr.bufCmdtype
    let list := mngr.sortedlists type
    let found :=
      if anew then seek (mngr.counted status access) list id.toNat
      else
        seek (mngr.counted status access) (ahead list mngr.bufCmdptr)
          (id - mngr.bufCmdid).toNat
    ({ mngr with
        bufCmdid := id
        bufCmdtype := some type
        bufCmdaccess := access
        bufCmdptr := found.head?.map CmdLink.addr },
      found.head?.map CmdLink.cmd)

def getCmdNum (mngr : CmdMngr) (type : CmdType) (access : BitVec 32) : Nat :=
  (mngr.sortedlists type).countP (mngr.counted status access)

end CmdMngr

/-! The manager among the plugins. -/

inductive Event
  | registerPrefix (nn : CString)
  | registerCommand (plugin : Nat) (func : Int) (cmd info : CString) (level : BitVec 32)
      (listable : Bool)
  | setCmdType (cmd : Nat) (a : CmdType)
  | setStatus (plugin : Nat) (status : Status)
  | pausePlugin (plugin : Nat)
  | unpausePlugin (plugin : Nat)
  | getCmd (id : Int) (type : CmdType) (access : BitVec 32)
  | getCmdNum (type : CmdType) (access : BitVec 32)
  | clear
deriving DecidableEq

inductive Answer
  | command (found : Option Nat)
  | number (count : Nat)
deriving DecidableEq

structure State where
  mngr : CmdMngr
  status : Nat → Status
  answers : List Answer

namespace State

def create (status : Nat → Status) : State := ⟨.create, status, []⟩

def setStatus (s : State) (plugin : Nat) (status : Status) : State :=
  { s with
    status := Function.update s.status plugin status
    mngr := s.mngr.clearBufforedInfo }

def pausePlugin (s : State) (plugin : Nat) : State :=
  if (s.status plugin).isValid then s.setStatus plugin .paused else s

def unpausePlugin (s : State) (plugin : Nat) : State :=
  if (s.status plugin).isValid ∧ s.status plugin ≠ .stopped then s.setStatus plugin .running
  else s

variable (getCmd : CmdMngr.GetCmd)

def step (s : State) : Event → Option State
  | .registerPrefix nn => some { s with mngr := s.mngr.registerPrefix nn }
  | .registerCommand plugin func cmd info level listable =>
      (s.mngr.registerCommand plugin func cmd info level listable).map ({ s with mngr := · })
  | .setCmdType cmd a => (s.mngr.setCmdType cmd a).map ({ s with mngr := · })
  | .setStatus plugin status => some (s.setStatus plugin status)
  | .pausePlugin plugin => some (s.pausePlugin plugin)
  | .unpausePlugin plugin => some (s.unpausePlugin plugin)
  | .getCmd id type access =>
      let result := getCmd s.status s.mngr id type access
      some { s with mngr := result.1, answers := .command result.2 :: s.answers }
  | .getCmdNum type access =>
      some { s with answers := .number (s.mngr.getCmdNum s.status type access) :: s.answers }
  | .clear => some { s with mngr := s.mngr.clear }

end State

end AmxModC.Cmd
