import AmxModC.Vault.Close

namespace AmxModC.Vault

open Foundation

/-! An open vault until its process ends: what of its stamps the next process finds. -/

def NVault.touch (vault : NVault) (disk : Disk) (key : CString) (stamp now : Time) :
    Option (NVault × Disk) := do
  let (vault, disk) ←
    if vault.hash.existsKey key then some (vault, disk)
    else vault.setValueStamp disk key default now
  return ({ vault with hash := vault.hash.touch key stamp }, disk)

inductive Change
  | setValue (key val : CString) (written inserted : Time)
  | setValueStamp (key val : CString) (stamp : Time)
  | touch (key : CString) (stamp now : Time)
  | remove (key : CString)
  | clear
  | prune (start «end» : Time)
deriving DecidableEq

def Change.InRange : Change → Prop
  | setValue key val _ _ | setValueStamp key val _ => key.size ≤ 255 ∧ val.size ≤ 65535
  | touch key _ _ | remove key => key.size ≤ 255
  | clear | prune .. => True

instance (change : Change) : Decidable change.InRange := by
  cases change <;> unfold Change.InRange <;> infer_instance

structure Live where
  vault : NVault
  disk : Disk

namespace Live

def change (s : Live) (change : Change) : Option Live :=
  let done :=
    match change with
    | .setValue key val written inserted => s.vault.setValue s.disk key val written inserted
    | .setValueStamp key val stamp => s.vault.setValueStamp s.disk key val stamp
    | .touch key stamp now => s.vault.touch s.disk key stamp now
    | .remove key => s.vault.remove s.disk key
    | .clear => s.vault.clear s.disk
    | .prune start «end» => s.vault.prune s.disk start «end»
  done.map fun (vault, disk) => ⟨vault, disk⟩

/-- After a crash a new process finds every entry with its stamp, and prunes the same of them. -/
def Recovered (s : Live) : Prop :=
  ∃ after disk', (NVault.construct s.disk).1.open (NVault.construct s.disk).2 =
      some (after, disk') ∧
    (∀ key, after.getValue key = s.vault.getValue key) ∧
      ∀ start «end» key, (after.hash.prune start «end»).1.retrieve? key =
        (s.vault.hash.prune start «end»).1.retrieve? key

def Right (s : Live) (change : Change) : Prop :=
  ∀ next, s.change change = some next → next.Recovered

/-- The stamp in the journal is the one in the table: both readings of the clock agree; a touch
leaves the stamp as it is, which for a new key is the time. -/
def Recorded (s : Live) : Change → Prop
  | .setValue _ _ written inserted => written = inserted
  | .touch key stamp now => ((s.vault.hash.contents key).map Prod.snd).getD now = stamp
  | _ => True

instance (s : Live) (change : Change) : Decidable (s.Recorded change) := by
  cases change <;> unfold Recorded <;> infer_instance

/-! What is kept, whatever is touched: the vault file as it was read, and the journal as a log of
operations. -/

structure Sound (s : Live) (base : VaultMap) (log : List JOp) : Prop where
  wellFormed : s.vault.hash.WellFormed
  begun : s.vault.journal = .begun
  file : ∃ error, readFromFile (some (s.disk.vault.getD [])) .empty = some (error, base)
  journal : s.disk.journal.getD [] = log.flatMap writeOp
  logged : ∀ op ∈ log, op.InRange

def Agrees (s : Live) (base : VaultMap) (log : List JOp) : Prop :=
  ∀ key, redo JOp.effect log key (base.contents key) = s.vault.hash.contents key

section

variable {s : Live} {base : VaultMap} {log : List JOp}

theorem Sound.recovered_iff (h : s.Sound base log) : s.Recovered ↔ s.Agrees base log := by
  have hlive : ∀ key, s.vault.getValue key = s.vault.hash.contents key := getValue_eq h.wellFormed
  have hreopens := reopens_iff s.disk s.vault.getValue
  obtain ⟨error, hfile⟩ := h.file
  have hanswer : (∃ answer, readFromFile (some (s.disk.vault.getD [])) .empty = some answer ∧
      ∀ key, redo JOp.effect (records s.disk.journal) key (answer.2.contents key) =
        s.vault.getValue key) ↔ s.Agrees base log := by
    rw [records_log h.logged h.journal, hfile]
    simp only [Option.some.injEq, exists_eq_left', hlive]
    rfl
  rw [← hanswer, ← hreopens]
  constructor
  · rintro ⟨after, disk', hopen, hsame, -⟩
    exact ⟨after, disk', hopen, hsame⟩
  · rintro ⟨after, disk', hopen, hsame⟩
    refine ⟨after, disk', hopen, hsame, fun start «end» key => ?_⟩
    have hwf := reopened_wellFormed hopen
    have hkey := hsame key
    rw [getValue_eq hwf, hlive] at hkey
    rw [(THash.prune_wellFormed hwf start «end»).retrieve?,
      (THash.prune_wellFormed h.wellFormed start «end»).retrieve?, THash.contents_prune hwf,
      THash.contents_prune h.wellFormed, hkey]

theorem Sound.perform (h : s.Sound base log) (written done : JOp) (hrange : written.InRange) :
    ∃ vault disk, s.vault.perform s.disk written done = some (vault, disk) ∧
      (⟨vault, disk⟩ : Live).Sound base (log ++ [written]) ∧
        vault.hash = done.applyTo s.vault.hash := by
  refine ⟨_, _, by rw [NVault.perform, NVault.record, h.begun]; rfl, ?_, rfl⟩
  exact {
    wellFormed := applyTo_wellFormed h.wellFormed done
    begun := rfl
    file := h.file
    journal := by simp [h.journal]
    logged := fun op hop => (List.mem_append.mp hop).elim (h.logged op) fun hlast =>
      List.mem_singleton.mp hlast ▸ hrange }

theorem Agrees.perform_iff (h : s.Agrees base log) (hwf : s.vault.hash.WellFormed)
    {written done : JOp} {next : Live} (hnext : next.vault.hash = done.applyTo s.vault.hash) :
    next.Agrees base (log ++ [written]) ↔
      ∀ key, written.effect key (s.vault.hash.contents key) =
        done.effect key (s.vault.hash.contents key) := by
  refine forall_congr' fun key => ?_
  rw [redo_concat, h key, hnext, contents_applyTo hwf]

theorem Sound.touched (h : s.Sound base log) {key : CString} {entry : CString × Time}
    (hentry : s.vault.hash.contents key = some entry) (stamp : Time) :
    (⟨{ s.vault with hash := s.vault.hash.touch key stamp }, s.disk⟩ : Live).Sound base log ∧
      (s.Agrees base log →
        ((⟨{ s.vault with hash := s.vault.hash.touch key stamp }, s.disk⟩ : Live).Agrees base log ↔
          entry.2 = stamp)) := by
  constructor
  · exact {
      wellFormed := THash.touch_wellFormed h.wellFormed key stamp
      begun := h.begun
      file := h.file
      journal := h.journal
      logged := h.logged }
  · intro hagrees
    have hcontents : ∀ other, (s.vault.hash.touch key stamp).contents other =
        if other = key then some (entry.1, stamp) else s.vault.hash.contents other := by
      intro other
      rw [THash.contents_touch h.wellFormed, hentry]
      rfl
    constructor
    · intro hnext
      have hkey := hnext key
      rw [hagrees key, hentry, hcontents, if_pos rfl, Option.some.injEq] at hkey
      exact congrArg Prod.snd hkey
    · intro hstamp other
      rw [hagrees other, hcontents]
      split
      next heq => rw [heq, hentry, ← hstamp]
      next => rfl

theorem Sound.change (h : s.Sound base log) {change : Change} (hrange : change.InRange) :
    ∃ next, s.change change = some next ∧ ∃ log', next.Sound base log' ∧
      (s.Agrees base log → (next.Agrees base log' ↔ s.Recorded change)) := by
  have hsame : ∀ op : JOp, op.InRange → ∃ vault disk,
      s.vault.perform s.disk op op = some (vault, disk) ∧ ∃ log',
        (⟨vault, disk⟩ : Live).Sound base log' ∧ vault.hash = op.applyTo s.vault.hash ∧
          (s.Agrees base log → (⟨vault, disk⟩ : Live).Agrees base log') := by
    intro op hop
    obtain ⟨vault, disk, hperform, hsound, hhash⟩ := h.perform op op hop
    exact ⟨vault, disk, hperform, _, hsound, hhash, fun hagrees =>
      (hagrees.perform_iff h.wellFormed hhash).mpr fun _ => rfl⟩
  have hplain : ∀ op : JOp, op.InRange → s.change change =
      (s.vault.perform s.disk op op).map (fun (vault, disk) => ⟨vault, disk⟩) →
        s.Recorded change → ∃ next, s.change change = some next ∧ ∃ log',
          next.Sound base log' ∧
            (s.Agrees base log → (next.Agrees base log' ↔ s.Recorded change)) := by
    intro op hop hchange hrecorded
    obtain ⟨vault, disk, hperform, log', hsound, -, hagrees⟩ := hsame op hop
    refine ⟨⟨vault, disk⟩, by rw [hchange, hperform]; rfl, log', hsound, fun h => ?_⟩
    exact iff_of_true (hagrees h) hrecorded
  cases change with
  | setValue key val written inserted =>
      obtain ⟨vault, disk, hperform, hsound, hhash⟩ :=
        h.perform (.insert key val written) (.insert key val inserted) hrange
      refine ⟨⟨vault, disk⟩, ?_, _, hsound, fun hagrees => ?_⟩
      · change (s.vault.perform _ _ _).map _ = _
        rw [hperform]
        rfl
      · refine (hagrees.perform_iff h.wellFormed hhash).trans ?_
        constructor
        · intro heffect
          have hkey := heffect key
          simp only [JOp.effect, if_true, Option.some.injEq, Prod.mk.injEq] at hkey
          exact hkey.2
        · rintro rfl _
          rfl
  | setValueStamp key val stamp => exact hplain (.insert key val stamp) hrange rfl trivial
  | remove key => exact hplain (.remove key) hrange rfl trivial
  | clear => exact hplain .clear trivial rfl trivial
  | prune start «end» => exact hplain (.prune start «end») trivial rfl trivial
  | touch key stamp now =>
      have hexists := h.wellFormed.existsKey key
      cases hcontents : s.vault.hash.contents key with
      | some entry =>
          obtain ⟨hsound, hiff⟩ := h.touched hcontents stamp
          refine ⟨_, ?_, log, hsound, fun hagrees => (hiff hagrees).trans ?_⟩
          · have hfound : s.vault.hash.existsKey key = true := by
              rw [hexists, ← Option.isSome_map (f := THashNode.entry)]
              exact congrArg Option.isSome hcontents
            simp [Live.change, NVault.touch, hfound]
          · rw [Recorded, hcontents]
            rfl
      | none =>
          obtain ⟨vault, disk, hperform, log', hsound, hhash, hagrees⟩ :=
            hsame (.insert key default now) ⟨hrange, Nat.zero_le _⟩
          have hentry : vault.hash.contents key = some (default, now) := by
            rw [hhash, JOp.applyTo, THash.contents_insert h.wellFormed, if_pos rfl]
          obtain ⟨hsound', hiff⟩ := hsound.touched hentry stamp
          refine ⟨_, ?_, log', hsound', fun h => (hiff (hagrees h)).trans ?_⟩
          · have hfound : s.vault.hash.existsKey key = false := by
              rw [hexists, ← Option.isSome_map (f := THashNode.entry)]
              exact congrArg Option.isSome hcontents
            simp [Live.change, NVault.touch, hfound, NVault.setValueStamp, hperform]
          · rw [Recorded, hcontents]
            rfl

end

def Saved (disk : Disk) : Prop :=
  ∀ answer, readFromFile (some (disk.vault.getD [])) .empty = some answer →
    ∀ key, redo JOp.effect (records disk.journal) key (answer.2.contents key) =
      answer.2.contents key

theorem sound_opened {disk disk' : Disk} {vault : NVault}
    (hopen : (NVault.construct disk).1.open (NVault.construct disk).2 = some (vault, disk')) :
    ∃ base, (⟨vault, disk'⟩ : Live).Sound base [] ∧
      ((⟨vault, disk'⟩ : Live).Agrees base [] ↔ Saved disk) := by
  have hwf := reopened_wellFormed hopen
  obtain ⟨⟨error, base⟩, hread, hdone⟩ := Option.bind_eq_some_iff.mp hopen
  cases hdone
  refine ⟨base, ⟨hwf, rfl, ⟨error, hread⟩, rfl, fun op hop => absurd hop List.not_mem_nil⟩, ?_⟩
  have hcontents : ∀ key, THash.contents (replay disk.journal base).1 key =
      redo JOp.effect (records disk.journal) key (base.contents key) := by
    intro key
    rw [replay_records, contents_foldl_applyTo (readFromFile_sound hread).1]
  constructor
  · intro hagrees answer hanswer key
    cases hread.symm.trans hanswer
    exact (hcontents key).symm.trans (hagrees key).symm
  · intro hsaved key
    exact ((hcontents key).trans (hsaved _ hread key)).symm

/-- From its opening on a vault is recovered as it was, after any of its changes, exactly if all of
them are recorded as they are made. -/
theorem recovered_iff_recorded {disk disk' : Disk} {vault : NVault}
    (hopen : (NVault.construct disk).1.open (NVault.construct disk).2 = some (vault, disk'))
    (changes : List Change) :
    (⟨vault, disk'⟩ : Live).Recovered ∧
        Meets change (fun s change => change.InRange ∧ s.Right change) ⟨vault, disk'⟩ changes ↔
      Saved disk ∧
        Meets change (fun s change => change.InRange ∧ s.Recorded change) ⟨vault, disk'⟩ changes := by
  obtain ⟨base, hsound, hsaved⟩ := sound_opened hopen
  rw [hsound.recovered_iff, hsaved]
  refine and_congr_right fun hstart => ?_
  have hinitial : ∃ base log, (⟨vault, disk'⟩ : Live).Sound base log ∧
      (⟨vault, disk'⟩ : Live).Agrees base log := ⟨base, [], hsound, hsaved.mpr hstart⟩
  refine meets_congr (I := fun s => ∃ base log, s.Sound base log ∧ s.Agrees base log) ?_ ?_ hinitial
  · rintro s change next ⟨base, log, h, -⟩ ⟨hrange, hright⟩ hstep
    obtain ⟨next', hstep', log', hsound', -⟩ := h.change hrange
    cases hstep.symm.trans hstep'
    exact ⟨base, log', hsound', hsound'.recovered_iff.mp (hright next hstep)⟩
  · rintro s change ⟨base, log, h, hagrees⟩
    refine and_congr_right fun hrange => ?_
    obtain ⟨next, hstep, log', hsound', hiff⟩ := h.change hrange
    rw [← hiff hagrees, ← hsound'.recovered_iff]
    exact ⟨fun hright => hright next hstep,
      fun hrecovered other hother => Option.some.inj (hstep.symm.trans hother) ▸ hrecovered⟩

def fresh : Live := ⟨⟨.empty, .begun, true⟩, ⟨some [], some []⟩⟩

theorem open_fresh : (NVault.construct ⟨none, none⟩).1.open (NVault.construct ⟨none, none⟩).2 =
    some (fresh.vault, fresh.disk) := rfl

theorem recovered_touched_again :
    fresh.Recovered ∧ Meets change (fun s change => change.InRange ∧ s.Right change) fresh
      [.touch Session.key 7 7, .touch Session.key 7 9, .prune 0 5] := by
  refine (recovered_iff_recorded open_fresh _).mpr ⟨?_, ?_⟩
  · exact fun answer _ key => rfl
  · decide +kernel

/-- A touch at time 9 of an entry of time 7, which the journal does not have. -/
theorem not_recovered_touched : ¬ ∀ (disk disk' : Disk) (vault : NVault) (changes : List Change)
    (final : Live),
    (NVault.construct disk).1.open (NVault.construct disk).2 = some (vault, disk') →
      run change ⟨vault, disk'⟩ changes = some final → final.Recovered := by
  intro h
  have hrun : (run change fresh [.setValueStamp Session.key Session.val 7,
      .touch Session.key 9 9]).map (fun s =>
        (((NVault.construct s.disk).1.open (NVault.construct s.disk).2).map fun found =>
          found.1.getValue Session.key, s.vault.getValue Session.key)) =
        some (some (some (Session.val, 7)), some (Session.val, 9)) := by
    decide +kernel
  obtain ⟨final, hfinal, hlost⟩ := Option.map_eq_some_iff.mp hrun
  obtain ⟨after, disk', hopen, hsame, -⟩ := h _ _ _ _ final open_fresh hfinal
  rw [hopen, Option.map_some, hsame, Prod.mk.injEq] at hlost
  have hstamp := Option.some.inj (hlost.2.symm.trans (Option.some.inj hlost.1))
  exact absurd (congrArg Prod.snd hstamp) (by decide)

end Live

end AmxModC.Vault
