import AmxModC.Foundation.Run
import AmxModC.Vault.Replay

namespace AmxModC.Vault

open Foundation

/-! One vault over its whole life, through crashes. -/

inductive Event
  | open
  | close
  /-- The process ends; a new one constructs the object again. -/
  | crash
  | setValue (key val : CString) (written inserted : Time)
  | setValueStamp (key val : CString) (stamp : Time)
  | remove (key : CString)
  | clear
  | prune (start «end» : Time)
deriving DecidableEq

def Event.completes : Event → Option JOp
  | .open | .close | .crash => none
  | setValue key val _ inserted => some (.insert key val inserted)
  | setValueStamp key val stamp => some (.insert key val stamp)
  | remove key => some (.remove key)
  | clear => some .clear
  | prune start «end» => some (.prune start «end»)

def Event.InRange (event : Event) : Prop := ∀ op ∈ event.completes, op.InRange

instance (event : Event) : Decidable event.InRange :=
  inferInstanceAs (Decidable (∀ op ∈ event.completes, op.InRange))

/-- The object and its files, with the history: the operations completed so far,
and whether the table has records in it from a journal that `Open` has erased
since the last save. -/
structure Session where
  vault : NVault
  disk : Disk
  completed : List JOp
  replayed : Bool

namespace Session

def start : Session :=
  let (vault, disk) := NVault.construct ⟨none, none⟩
  ⟨vault, disk, [], false⟩

def act (s : Session) : Event → Option (NVault × Disk)
  | .open => s.vault.open s.disk
  | .close => s.vault.close s.disk
  | .crash => some (NVault.construct s.disk)
  | .setValue key val written inserted => s.vault.setValue s.disk key val written inserted
  | .setValueStamp key val stamp => s.vault.setValueStamp s.disk key val stamp
  | .remove key => s.vault.remove s.disk key
  | .clear => s.vault.clear s.disk
  | .prune start «end» => s.vault.prune s.disk start «end»

def replayedAfter (s : Session) : Event → Bool
  | .open => s.replayed || !(s.disk.journal.getD []).isEmpty
  | .close => s.replayed && !s.vault.isOpen
  | .crash => false
  | _ => s.replayed

def next (s : Session) (event : Event) : Option Session :=
  (s.act event).map fun (vault, disk) =>
    ⟨vault, disk, s.completed ++ event.completes.toList, s.replayedAfter event⟩

def expected (s : Session) (key : CString) : Option (CString × Time) :=
  redo JOp.effect s.completed key none

def UpToDate (s : Session) : Prop := ∀ key, s.vault.getValue key = s.expected key

def Recovers (events : List Event) : Prop :=
  ∃ final, run next start events = some final ∧ (final.vault.isOpen = true → final.UpToDate)

/-- No process ends and nothing is read again before the records of an erased
journal are saved; what is saved can be read; operations are made on an open
vault, and the clock does not tick inside one. -/
def Careful (s : Session) : Event → Prop
  | .open | .crash => s.replayed = false
  | .close => s.vault.isOpen = true → Restorable s.vault.hash
  | .setValue _ _ written inserted => s.vault.isOpen = true ∧ written = inserted
  | _ => s.vault.isOpen = true

instance (s : Session) (event : Event) : Decidable (s.Careful event) := by
  cases event <;> unfold Careful <;> infer_instance

/-! The invariant. -/

def HoldsFile (file : Option (List Byte)) (saved : CString → Option (CString × Time)) : Prop :=
  file.isSome = true ∧
    ∀ hash : VaultMap, hash.WellFormed →
      ∃ error hash', readFromFile file hash = some (error, hash') ∧ hash'.WellFormed ∧
        ∀ key, hash'.contents key = (saved key).or (hash.contents key)

/-- `saved` is in the vault file and `log` in the journal. -/
structure Sound (s : Session) (saved : CString → Option (CString × Time)) (log : List JOp) :
    Prop where
  wellFormed : s.vault.hash.WellFormed
  completed : ∀ op ∈ s.completed, op.InRange
  file : HoldsFile s.disk.vault saved
  journal : s.disk.journal.getD [] = log.flatMap writeOp
  logged : ∀ op ∈ log, op.InRange
  recover : s.replayed = false → ∀ key, redo JOp.effect log key (saved key) = s.expected key
  live : s.vault.isOpen = true →
    s.vault.journal = .begun ∧ ∀ key, s.vault.hash.contents key = s.expected key
  idle : s.vault.isOpen = false →
    s.replayed = false ∧ ∀ key, (saved key).or (s.vault.hash.contents key) = saved key

section

variable {s s' : Session} {saved : CString → Option (CString × Time)} {log : List JOp}
  {event : Event} {op : JOp}

theorem holdsFile_empty : HoldsFile (some []) fun _ => none :=
  ⟨rfl, fun hash hwf => ⟨.read, hash, rfl, hwf, fun _ => rfl⟩⟩

theorem sound_start : start.Sound (fun _ => none) [] where
  wellFormed := THash.empty_wellFormed
  completed := by simp [start]
  file := holdsFile_empty
  journal := rfl
  logged := by simp
  recover := fun _ _ => rfl
  live := by simp [start, NVault.construct]
  idle := fun _ => ⟨rfl, fun _ => THash.contents_empty⟩

theorem expected_inRange (hcompleted : ∀ op ∈ s.completed, op.InRange) (key : CString) :
    ∀ entry : CString × Time, s.expected key = some entry → key.size ≤ 255 ∧ entry.1.size ≤ 65535 := by
  refine redo_induction (P := fun x : Option (CString × Time) => ∀ entry, x = some entry →
    key.size ≤ 255 ∧ entry.1.size ≤ 65535) (fun op hop x hx entry hentry => ?_) (by simp)
  have hrange := hcompleted op hop
  cases op with
  | clear => cases hentry
  | prune start «end» =>
      exact hx entry (Option.eq_some_of_filter_eq_some hentry)
  | insert k val stamp =>
      change (if key = k then some (val, stamp) else x) = some entry at hentry
      split at hentry
      next heq =>
          cases hentry
          exact heq ▸ hrange
      next => exact hx entry hentry
  | remove k =>
      change (if key = k then none else x) = some entry at hentry
      split at hentry
      next => cases hentry
      next => exact hx entry hentry

theorem replay_fst
    {file : Option (List Byte)}
    (hfile : file.getD [] = log.flatMap writeOp)
    (hlog : ∀ op ∈ log, op.InRange)
    (map : VaultMap) :
    (replay file map).1 = log.foldl JOp.applyTo map := by
  cases file with
  | none =>
      cases log with
      | nil => rfl
      | cons op log => simp [writeOp_ne_nil] at hfile
  | some bytes =>
      rw [Option.getD_some] at hfile
      rw [hfile, replay_log hlog]

theorem Sound.open_step (h : s.Sound saved log) (hcareful : s.replayed = false) :
    ∃ s', s.next .open = some s' ∧ s'.Sound saved [] := by
  obtain ⟨error, hash, hread, hwf, hcontents⟩ := h.file.2 _ h.wellFormed
  have hreplay := replay_fst h.journal h.logged hash
  have hnext : s.next .open = some ⟨⟨(replay s.disk.journal hash).1, .begun, true⟩,
      { s.disk with journal := some [] }, s.completed ++ [], s.replayedAfter .open⟩ := by
    simp [next, act, NVault.open, hread, Event.completes]
  -- over a live table the old values of the file come back, and the journal mends them
  have hvalues : ∀ key, redo JOp.effect log key ((saved key).or (s.vault.hash.contents key)) =
      s.expected key := by
    intro key
    rw [← h.recover hcareful]
    cases hopen : s.vault.isOpen with
    | false => rw [(h.idle hopen).2 key]
    | true =>
        rw [(h.live hopen).2 key, ← h.recover hcareful]
        exact (redoable_redo JOp.redoable_effect log key).merged _
  refine ⟨_, hnext, ?_⟩
  rw [List.append_nil, hreplay]
  exact {
    wellFormed := foldl_applyTo_wellFormed hwf log
    completed := h.completed
    file := h.file
    journal := rfl
    logged := by simp
    recover := by
      intro hreplayed key
      have hempty : s.disk.journal.getD [] = [] := by
        simpa [replayedAfter, hcareful] using hreplayed
      have hlog : log = [] := by
        cases log with
        | nil => rfl
        | cons op log => simp [h.journal, writeOp_ne_nil] at hempty
      subst hlog
      exact h.recover hcareful key
    live := by
      refine fun _ => ⟨rfl, fun key => ?_⟩
      rw [contents_foldl_applyTo hwf, hcontents]
      exact hvalues key
    idle := by simp }

theorem Sound.close_step (h : s.Sound saved log)
    (hcareful : s.vault.isOpen = true → Restorable s.vault.hash) :
    ∃ s', s.next .close = some s' ∧ ∃ saved' log', s'.Sound saved' log' := by
  cases hopen : s.vault.isOpen with
  | false =>
      have hnext : s.next .close = some ⟨s.vault, s.disk, s.completed ++ [], s.replayed⟩ := by
        simp [next, act, NVault.close, hopen, Event.completes, replayedAfter]
      rw [List.append_nil] at hnext
      exact ⟨s, hnext, saved, log, h⟩
  | true =>
      obtain ⟨hbegun, hcontents⟩ := h.live hopen
      have hnext : s.next .close = some ⟨{ s.vault with journal := .ended, isOpen := false },
          ⟨some (saveToFile s.vault.hash), none⟩, s.completed ++ [], false⟩ := by
        simp [next, act, NVault.close, hopen, hbegun, Event.completes, replayedAfter]
      have hfits : ∀ node ∈ s.vault.hash.nodes, FitsFile node := by
        intro node hnode
        have hfound : s.vault.hash.contents node.key = some (node.val, node.stamp) := by
          rw [THash.contents, (lookup_eq_some h.wellFormed.distinct).mpr ⟨hnode, rfl⟩]
          rfl
        rw [hcontents] at hfound
        exact expected_inRange h.completed node.key _ hfound
      refine ⟨_, hnext, s.vault.hash.contents, [], ?_⟩
      rw [List.append_nil]
      exact {
        wellFormed := h.wellFormed
        completed := h.completed
        file := by
          refine ⟨rfl, fun hash hwf => ⟨_, _, readFromFile_of_restorable h.wellFormed.counted hfits
            (hcareful hopen) hash, foldl_insertNode_wellFormed hwf _, fun key => ?_⟩⟩
          exact contents_foldl_insertNode hwf h.wellFormed.distinct key
        journal := rfl
        logged := by simp
        recover := fun _ => hcontents
        live := by simp
        idle := fun _ => ⟨rfl, fun key => Option.or_self⟩ }

theorem Sound.crash_step (h : s.Sound saved log) (hcareful : s.replayed = false) :
    ∃ s', s.next .crash = some s' ∧ s'.Sound saved log := by
  have hdisk : (NVault.construct s.disk).2 = s.disk := by
    obtain ⟨bytes, hbytes⟩ := Option.isSome_iff_exists.mp h.file.1
    rw [NVault.construct, hbytes, Option.getD_some, ← hbytes]
  refine ⟨_, rfl, ?_⟩
  change Sound ⟨⟨.empty, .null, false⟩, (NVault.construct s.disk).2, s.completed ++ [], false⟩ _ _
  rw [hdisk, List.append_nil]
  exact {
    wellFormed := THash.empty_wellFormed
    completed := h.completed
    file := h.file
    journal := h.journal
    logged := h.logged
    recover := fun _ => h.recover hcareful
    live := by simp
    idle := fun _ => ⟨rfl, fun key => by rw [THash.contents_empty, Option.or_none]⟩ }

theorem Sound.perform_step (h : s.Sound saved log) (hopen : s.vault.isOpen = true)
    (hop : op.InRange) :
    ∃ vault disk, s.vault.perform s.disk op op = some (vault, disk) ∧
      Sound ⟨vault, disk, s.completed ++ [op], s.replayed⟩ saved (log ++ [op]) := by
  obtain ⟨hbegun, hcontents⟩ := h.live hopen
  have hconcat : ∀ {ops : List JOp}, (∀ other ∈ ops, other.InRange) →
      ∀ other ∈ ops ++ [op], other.InRange := by
    intro ops hops other hother
    rcases List.mem_append.mp hother with hold | hnew
    · exact hops other hold
    · exact List.mem_singleton.mp hnew ▸ hop
  refine ⟨_, _, by rw [NVault.perform, NVault.record, hbegun]; rfl, ?_⟩
  exact {
    wellFormed := applyTo_wellFormed h.wellFormed op
    completed := hconcat h.completed
    file := h.file
    journal := by simp [h.journal]
    logged := hconcat h.logged
    recover := by
      intro hreplayed key
      rw [redo_concat, h.recover hreplayed key, expected, expected, redo_concat]
    live := by
      refine fun _ => ⟨rfl, fun key => ?_⟩
      rw [contents_applyTo h.wellFormed, hcontents, expected, expected, redo_concat]
    idle := by simp [hopen] }

theorem sound_step (h : ∃ saved log, s.Sound saved log)
    (hallowed : s.Careful event ∧ event.InRange) :
    ∃ s', s.next event = some s' ∧ ∃ saved log, s'.Sound saved log := by
  obtain ⟨saved, log, h⟩ := h
  obtain ⟨hcareful, hrange⟩ := hallowed
  have hoperation : ∀ op, event.completes = some op → s.vault.isOpen = true →
      s.replayedAfter event = s.replayed → s.act event = s.vault.perform s.disk op op →
      ∃ s', s.next event = some s' ∧ ∃ saved log, s'.Sound saved log := by
    intro op hcompletes hopen hreplayed hact
    obtain ⟨vault, disk, hperform, hsound⟩ := h.perform_step hopen (hrange op hcompletes)
    refine ⟨_, ?_, _, _, hsound⟩
    rw [next, hact, hperform, hcompletes, hreplayed]
    rfl
  cases event with
  | «open» =>
      obtain ⟨s', hnext, hsound⟩ := h.open_step hcareful
      exact ⟨s', hnext, _, _, hsound⟩
  | close => exact h.close_step hcareful
  | crash =>
      obtain ⟨s', hnext, hsound⟩ := h.crash_step hcareful
      exact ⟨s', hnext, _, _, hsound⟩
  | setValue key val written inserted =>
      obtain ⟨hopen, rfl⟩ := hcareful
      exact hoperation (.insert key val written) rfl hopen rfl rfl
  | setValueStamp key val stamp => exact hoperation (.insert key val stamp) rfl hcareful rfl rfl
  | remove key => exact hoperation (.remove key) rfl hcareful rfl rfl
  | clear => exact hoperation .clear rfl hcareful rfl rfl
  | prune start «end» => exact hoperation (.prune start «end») rfl hcareful rfl rfl

theorem Sound.upToDate (h : s.Sound saved log) (hopen : s.vault.isOpen = true) :
    s.UpToDate := by
  intro key
  rw [NVault.getValue, h.wellFormed.retrieve?, (h.live hopen).2 key]
  split
  next => rfl
  next hkey =>
      have hcontents := (h.live hopen).2 key
      rw [h.wellFormed.existsKey, Option.not_isSome_iff_eq_none] at hkey
      rw [← hcontents, THash.contents, hkey]
      rfl

theorem recovers_of_careful
    (events : List Event)
    (hrange : ∀ event ∈ events, event.InRange)
    (hcareful : Meets next Careful start events) :
    Recovers events := by
  have hsound : ∃ saved log, start.Sound saved log := ⟨_, _, sound_start⟩
  obtain ⟨final, hrun, saved, log, hfinal⟩ :=
    run_total sound_step hsound (hcareful.and_forall hrange)
  exact ⟨final, hrun, hfinal.upToDate⟩

end

def key : CString := letter 97 zero_ne_a
def val : CString := letter 98 zero_ne_b

theorem recovers_crash_then_close :
    Recovers [.open, .setValue key val 7 7, .crash, .open, .close, .crash, .open] :=
  recovers_of_careful _ (by decide +kernel) (by decide +kernel)

def crashedTwice : List Event := [.open, .setValue key val 7 7, .crash, .open, .crash, .open]

theorem not_recovers_crashedTwice :
    (∀ event ∈ crashedTwice, event.InRange) ∧ ¬ Recovers crashedTwice := by
  refine ⟨by decide +kernel, ?_⟩
  have hlost : (run next start crashedTwice).map (fun final =>
      (final.vault.isOpen, final.vault.getValue key, final.expected key)) =
      some (true, none, some (val, 7)) := by
    decide +kernel
  rintro ⟨final, hrun, hopen⟩
  rw [hrun] at hlost
  simp only [Option.map_some, Option.some.injEq, Prod.mk.injEq] at hlost
  obtain ⟨hisOpen, hvalue, hexpected⟩ := hlost
  have hkey := hopen hisOpen key
  rw [hvalue, hexpected] at hkey
  cases hkey

end Session

end AmxModC.Vault
