import AmxModC.Foundation.CString
import AmxModC.Foundation.Ledger
import AmxModC.Foundation.Run
import AmxModC.Plugin

namespace AmxModC.Image

open Foundation

/-! The images of the plugins in a build with the JIT: the cache of the plugin manager, the
loading of a plugin with all its exits, and the unloading. -/

/-- What is allocated for a plugin: arrays by `new[]`, objects by `new`, and the executable
memory by `memalign` or `VirtualAlloc`. -/
inductive Block where
  | image
  | np
  | rt
  | executable
  | dbgInfo
  | handler
  | debugger
  | optimizer
deriving DecidableEq, Repr

/-- `free` stands for `VirtualFree` too. -/
inductive Deallocator where
  | deleteArray
  | delete
  | free
deriving DecidableEq, Repr

def Block.deallocator : Block → Deallocator
  | image | np | rt => .deleteArray
  | executable => .free
  | dbgInfo | handler | debugger | optimizer => .delete

abbrev Heap := Ledger Block Deallocator

namespace Heap

def tryNew (heap : Heap) (block : Block) (succeeds : Bool) : Heap × Option Nat :=
  if succeeds then ((heap.allocate block).1, some (heap.allocate block).2) else (heap, none)

def giveBack (heap : Heap) (pointer : Option Nat) (deallocator : Deallocator) : Heap :=
  pointer.elim heap fun number => heap.release number deallocator

end Heap

def amxErrNone : Int := 0
def amxErrMemory : Int := 16
def amxErrFormat : Int := 17
def amxErrVersion : Int := 18
def amxErrNotfound : Int := 19
def amxErrInit : Int := 22
def amxErrInitJit : Int := 24

def amxMagic : BitVec 16 := 0xf1e0

def curFileVersion : Int := 8

def amxFlagDebug : BitVec 16 := 2

structure AmxHeader where
  magic : BitVec 16
  fileVersion : Int
  flags : BitVec 16
deriving DecidableEq, Repr

structure Image where
  number : Nat
  header : AmxHeader
deriving DecidableEq, Repr

inductive AmxxError where
  | none
  | invalidParam
  | fileOpen
  | fileRead
  | fileInvalid
  | sectionNotFound
  | decompressorInit
  | decompress
  | oldFile
deriving DecidableEq, Repr

/-- The `switch` over the status; the case of an old file falls through to the default. -/
def AmxxError.failure? : AmxxError → Option (Int × String)
  | none => .none
  | fileOpen => some (amxErrNotfound, "Plugin file open error")
  | fileRead => some (amxErrNotfound, "Plugin file read error")
  | invalidParam => some (amxErrNotfound, "Internal error: Invalid parameter")
  | fileInvalid => some (amxErrFormat, "Invalid Plugin")
  | sectionNotFound => some (amxErrNotfound, "Searched section not found (.amxx)")
  | decompressorInit => some (amxErrInit, "Decompressor initialization failed")
  | decompress => some (amxErrNotfound, "Internal error: Decompress")
  | oldFile => some (amxErrNotfound, "Unknown error")

/-- A file as the reader finds it: its status after the constructor, after `GetBufferSize`, and
after `GetSection`, which reads the image. -/
structure CAmxxReader where
  opened : AmxxError
  isOldFile : Bool
  bufferSize : Nat
  sized : AmxxError
  sectioned : AmxxError
  header : AmxHeader
deriving DecidableEq, Repr

namespace CAmxxReader

def status (reader : CAmxxReader) : AmxxError :=
  if reader.opened = .none then
    if reader.bufferSize = 0 then reader.sized else reader.sectioned
  else reader.opened

end CAmxxReader

structure PlcacheEntry where
  path : CString
  bufsize : Nat
  buffer : Image
deriving DecidableEq

structure AmxFlags where
  debug : Bool
  jitc : Bool
  oldfile : Bool
deriving DecidableEq, Repr

structure Debugger where
  number : Nat
  pAmxDbg : Nat
deriving DecidableEq, Repr

structure TagAmx where
  flags : AmxFlags
  udDebugger : Option Debugger
  udHandler : Option Nat
  utOptimizer : Option Nat
deriving DecidableEq, Repr

/-- After `memset`. -/
def TagAmx.zero : TagAmx := ⟨⟨false, false, false⟩, none, none, none⟩

structure CPlugin where
  amx : TagAmx
  code : Option Nat
  status : Status
  mDebug : Bool
deriving DecidableEq

/-- `handed` is a record of the buffers that were taken out of the cache by a load. -/
structure CPluginMngr where
  heap : Heap
  mPlcache : List PlcacheEntry
  handed : List Nat
  plugins : List CPlugin
deriving DecidableEq

namespace CPluginMngr

def initial : CPluginMngr := ⟨.empty, [], [], []⟩

variable (g : CPluginMngr)

def readIntoOrFromCache (file : CString) (reader : CAmxxReader) :
    CPluginMngr × Option (Image × Nat) :=
  match g.mPlcache.find? fun pl => pl.path = file with
  | some pl => (g, some (pl.buffer, pl.bufsize))
  | none =>
      if reader.opened ≠ .none ∨ reader.isOldFile then (g, none)
      else if reader.bufferSize = 0 then (g, none)
      else
        let (heap, number) := g.heap.allocate .image
        if reader.sectioned ≠ .none then ({ g with heap := heap.release number .deleteArray }, none)
        else
          let pl : PlcacheEntry := ⟨file, reader.bufferSize, ⟨number, reader.header⟩⟩
          ({ g with heap, mPlcache := g.mPlcache ++ [pl] }, some (pl.buffer, pl.bufsize))

def invalidateCache : CPluginMngr :=
  { g with
    heap := g.mPlcache.foldl (fun heap pl => heap.release pl.buffer.number .deleteArray) g.heap
    mPlcache := [] }

def invalidateFileInCache (file : CString) (freebuf : Bool) : CPluginMngr :=
  match g.mPlcache.find? fun pl => pl.path = file with
  | none => g
  | some pl =>
      { g with
        heap := if freebuf then g.heap.release pl.buffer.number .deleteArray else g.heap
        mPlcache := g.mPlcache.eraseP fun pl => pl.path = file }

def cacheAndLoadModules (plugin : CString) (reader : CAmxxReader) : CPluginMngr :=
  (g.readIntoOrFromCache plugin reader).1

end CPluginMngr

structure Outcomes where
  newProgram : Bool
  amxDebug : Int
  dbgLoadInfo : Int
  optLevel : Int
  amxInit : Int
  newNp : Bool
  newRt : Bool
  relocSize : Int
  amxInitJIT : Int
  newBase : Bool
  bOldPlugin : Bool
  setAmxnatives : String
  finalized : Bool
  checkModules : Option String
  unknownFunction : Option String
deriving DecidableEq, Repr

structure Loaded where
  heap : Heap
  amx : TagAmx
  program : Option Nat
  err : Int
  error : String
deriving DecidableEq

structure Reading where
  g : CPluginMngr
  program : Option Image
  failure : Option (Int × String)
  oldfile : Bool
deriving DecidableEq

section

variable (outcomes : Outcomes) (debug : Int)

/-- `load_amxscript` as far as the image: from the cache, which gives it away, or else from a
reader of its own. -/
def readProgram (g : CPluginMngr) (file : CString) (reader : CAmxxReader) : Reading :=
  match g.readIntoOrFromCache file reader with
  | (g, some (program, _)) =>
      let g := g.invalidateFileInCache file false
      ⟨{ g with handed := g.handed ++ [program.number] }, some program, none, false⟩
  | (g, none) =>
      if reader.opened = .none ∧ reader.bufferSize ≠ 0 then
        match g.heap.tryNew .image outcomes.newProgram with
        | (_, none) => ⟨g, none, some (amxErrMemory, "Failed to allocate memory"), false⟩
        | (heap, some number) =>
            ⟨{ g with heap }, some ⟨number, reader.header⟩, reader.status.failure?,
              reader.isOldFile⟩
      else ⟨g, none, reader.status.failure?, reader.isOldFile⟩

def loadInfo (heap : Heap) (hdr : AmxHeader) : Heap × Except (Int × String) (Option Nat) :=
  if 2 ≤ outcomes.amxDebug ∨ debug ≠ 0 then
    if hdr.fileVersion < curFileVersion then
      (heap, .error (amxErrVersion, "Plugin needs newer debug version info"))
    else if hdr.flags &&& amxFlagDebug ≠ 0 then
      let (heap, pDbg) := heap.allocate .dbgInfo
      let err := outcomes.dbgLoadInfo
      if err ≠ amxErrNone then
        (heap.release pDbg .delete, .error (amxErrInit, s!"Debug loading error {err}"))
      else (heap, .ok (some pDbg))
    else (heap, .error (amxErrInit, "Plugin not compiled with debug option"))
  else (heap, .ok none)

/-- The part of the JIT; the second result is what `program` points to after it. -/
def initJIT (heap : Heap) (program : Nat) : Heap × Option Nat × Option (Int × String) :=
  let (heap, np) := heap.tryNew .np outcomes.newNp
  let (heap, rt) := heap.tryNew .rt outcomes.newRt
  if np = none ∨ (rt = none ∧ 0 < outcomes.relocSize) then
    let heap := (heap.giveBack np .deleteArray).giveBack rt .deleteArray
    (heap, some program, some (amxErrInit, "Failed to initialize JIT'd plugin"))
  else
    let err := outcomes.amxInitJIT
    if err = amxErrNone then
      let (heap, base) := heap.tryNew .executable outcomes.newBase
      let heap := (heap.giveBack np .deleteArray).giveBack rt .deleteArray
      let heap := heap.release program .deleteArray
      (heap, base, if base = none then some (amxErrMemory, "Failed to allocate memory") else none)
    else
      let heap := (heap.giveBack np .deleteArray).giveBack rt .deleteArray
      (heap, some program, some (amxErrInitJit, s!"Failed to initialize plugin ({err})"))

def finish (heap : Heap) (amx : TagAmx) (program : Option Nat) (oldfile : Bool) : Loaded :=
  let amx := { amx with flags.oldfile := oldfile || outcomes.bOldPlugin }
  if outcomes.finalized then
    match outcomes.checkModules with
    | some error => ⟨heap, amx, program, amxErrNotfound, error⟩
    | none =>
        match outcomes.unknownFunction with
        | some no_function =>
            ⟨heap, amx, program, amxErrNotfound,
              s!"Plugin uses an unknown function (name \"{no_function}\") - check your modules.ini."⟩
        | none => ⟨heap, amx, program, amxErrNone, outcomes.setAmxnatives⟩
  else ⟨heap, amx, program, amxErrNone, outcomes.setAmxnatives⟩

/-- The part from `amx_Init` on, which sets up the optimizer where it succeeds. -/
def initProgram (heap : Heap) (pDbg : Option Nat) (program : Nat) (oldfile : Bool) : Loaded :=
  let amx := { TagAmx.zero with flags := ⟨pDbg.isSome, pDbg.isNone, false⟩ }
  let err := outcomes.amxInit
  if err ≠ amxErrNone then
    ⟨heap.giveBack pDbg .delete, amx, some program, amxErrInit,
      s!"Load error {err} (invalid file format or version)"⟩
  else
    let (heap, opt) := heap.tryNew .optimizer (outcomes.optLevel ≠ 65536)
    let (heap, pHandler) := heap.allocate .handler
    let amx := { amx with utOptimizer := opt, udHandler := some pHandler }
    match pDbg with
    | some pDbg =>
        let (heap, pDebugger) := heap.allocate .debugger
        finish outcomes heap { amx with udDebugger := some ⟨pDebugger, pDbg⟩ } (some program)
          oldfile
    | none =>
        match initJIT outcomes heap program with
        | (heap, program, some (err, error)) => ⟨heap, amx, program, err, error⟩
        | (heap, program, none) => finish outcomes heap amx program oldfile

def loadProgram (heap : Heap) (program : Image) (oldfile : Bool) : Loaded :=
  if program.header.magic ≠ amxMagic then
    ⟨heap, .zero, some program.number, amxErrFormat, "Invalid Plugin"⟩
  else
    match loadInfo outcomes debug heap program.header with
    | (heap, .error (err, error)) => ⟨heap, .zero, some program.number, err, error⟩
    | (heap, .ok pDbg) => initProgram outcomes heap pDbg program.number oldfile

def loadAmxscript (g : CPluginMngr) (file : CString) (reader : CAmxxReader) :
    Option (CPluginMngr × Loaded) :=
  let reading := readProgram outcomes g file reader
  let g := reading.g
  match reading.failure, reading.program with
  | some (err, error), program =>
      some (g, ⟨g.heap, .zero, program.map Image.number, err, error⟩)
  | none, none => none
  | none, some program =>
      let loaded := loadProgram outcomes debug g.heap program reading.oldfile
      some ({ g with heap := loaded.heap }, loaded)

end

def Heap.deleteDebugger (heap : Heap) (pDebugger : Debugger) : Heap :=
  (heap.release pDebugger.pAmxDbg .delete).release pDebugger.number .delete

def unloadAmxscript (heap : Heap) (amx : TagAmx) (program : Option Nat) : Heap × Option Nat :=
  let heap := amx.udDebugger.elim heap heap.deleteDebugger
  let heap := heap.giveBack amx.udHandler .delete
  let heap := heap.giveBack amx.utOptimizer .delete
  match program with
  | none => (heap, none)
  | some prg => (heap.release prg (if amx.flags.jitc then .free else .deleteArray), none)

namespace CPluginMngr

variable (g : CPluginMngr)

def loadPlugin (file : CString) (reader : CAmxxReader) (outcomes : Outcomes) (debug : Int) :
    Option CPluginMngr :=
  (loadAmxscript outcomes debug g file reader).map fun (g, loaded) =>
    let running := loaded.err = amxErrNone
    let plugin : CPlugin :=
      { amx := loaded.amx
        code := loaded.program
        status := if running then .running else .badLoad
        mDebug := running && loaded.amx.flags.debug }
    { g with plugins := g.plugins ++ [plugin] }

def unloadPlugin (i : Nat) : Option CPluginMngr :=
  g.plugins[i]?.map fun plugin =>
    { g with
      heap := (unloadAmxscript g.heap plugin.amx plugin.code).1
      plugins := g.plugins.eraseIdx i }

def clear : CPluginMngr :=
  { g with
    heap := g.plugins.foldl (fun heap plugin => (unloadAmxscript heap plugin.amx plugin.code).1)
      g.heap
    plugins := [] }

def destroy : CPluginMngr := g.clear.invalidateCache

end CPluginMngr

inductive Event where
  | cacheAndLoadModules (plugin : CString) (reader : CAmxxReader)
  | invalidateCache
  | loadPlugin (file : CString) (reader : CAmxxReader) (outcomes : Outcomes) (debug : Int)
  | unloadPlugin (i : Nat)
deriving DecidableEq

def step (g : CPluginMngr) : Event → Option CPluginMngr
  | .cacheAndLoadModules plugin reader => some (g.cacheAndLoadModules plugin reader)
  | .invalidateCache => some g.invalidateCache
  | .loadPlugin file reader outcomes debug => g.loadPlugin file reader outcomes debug
  | .unloadPlugin i => g.unloadPlugin i

end AmxModC.Image
