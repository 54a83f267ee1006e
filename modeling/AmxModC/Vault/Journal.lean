import AmxModC.Vault.Replay

namespace AmxModC.Vault

open Foundation Reader

def journal (log : List JOp) : List Byte := log.flatMap writeOp

section

variable {log : List JOp} {op : JOp} {map : VaultMap} {file rest : List Byte} {turns n : Nat}
  {key : CString} {entry : CString × Time}

/-! A journal cut inside a record. -/

theorem torn_readString8 {s : CString} (hsize : s.size ≤ 255) :
    Torn readString8 (writeString s .small) := by
  have hlen : (BitVec.ofNat 8 s.size).toNat = s.size := by
    rw [BitVec.toNat_ofNat]
    exact Nat.mod_eq_of_lt (Nat.lt_succ_of_le hsize)
  have hchars := (torn_take s.bytes).bind_pure fun key => CString.ofMemory (key ++ [0])
  refine Torn.bind (reads_readUInt8 _) ((torn_number 1 _).map _) ?_
  rw [hlen]
  exact hchars

theorem torn_readString16 {s : CString} (hsize : s.size ≤ 65535) :
    Torn readString16 (writeString s .medium) := by
  have hlen : (BitVec.ofNat 16 s.size).toNat = s.size := by
    rw [BitVec.toNat_ofNat]
    exact Nat.mod_eq_of_lt (Nat.lt_succ_of_le hsize)
  have hchars := (torn_take s.bytes).bind_pure fun val => CString.ofMemory (val ++ [0])
  refine Torn.bind (reads_readUInt16 _) ((torn_number 2 _).map _) ?_
  rw [hlen]
  exact hchars

theorem torn_readUInt32 (num : BitVec 32) : Torn readUInt32 (writeInt32 num) :=
  (torn_number 4 num.toNat).map _

theorem torn_readOp (hop : op.InRange) : Torn readOp (writeOp op) := by
  refine Torn.bind (reads_readUInt8 op.code) ((torn_number 1 _).map _) ?_
  cases op with
  | clear => exact torn_nil _
  | prune start «end» =>
      exact Torn.bind (reads_readUInt32 start) (torn_readUInt32 start)
        ((torn_readUInt32 «end»).bind_pure _)
  | insert key val stamp =>
      change Torn _ (writeInt32 stamp ++ writeString key .small ++ writeString val .medium)
      rw [List.append_assoc]
      exact Torn.bind (reads_readUInt32 stamp) (torn_readUInt32 stamp)
        (Torn.bind (reads_readString8 hop.1) (torn_readString8 hop.1)
          ((torn_readString16 hop.2).bind_pure _))
  | remove key => exact (torn_readString8 hop).bind_pure _

def recordEnd (log : List JOp) (i : Nat) : Nat := (journal (log.take (i + 1))).length

theorem recordEnd_zero (op : JOp) (log : List JOp) :
    recordEnd (op :: log) 0 = (writeOp op).length := by
  simp [recordEnd, journal]

theorem recordEnd_succ (op : JOp) (log : List JOp) (i : Nat) :
    recordEnd (op :: log) (i + 1) = (writeOp op).length + recordEnd log i := by
  simp [recordEnd, journal]

theorem replayLoop_torn (hlog : ∀ op ∈ log, op.InRange) (n : Nat) (map : VaultMap) :
    ∃ k, k ≤ log.length ∧ (∀ i < log.length, recordEnd log i ≤ n ↔ i < k) ∧
      ∀ turns, ((journal log).take n).length ≤ turns →
        replayLoop turns ((journal log).take n) map = ((log.take k).foldl JOp.applyTo map, k) := by
  induction log generalizing n map with
  | nil =>
      refine ⟨0, le_rfl, fun i hi => absurd hi (Nat.not_lt_zero i), fun turns _ => ?_⟩
      have hempty : (journal []).take n = [] := List.take_nil
      rw [hempty]
      cases turns <;> rfl
  | cons op log ih =>
      obtain ⟨hop, hlog⟩ := List.forall_mem_cons.mp hlog
      have hcons : journal (op :: log) = writeOp op ++ journal log := List.flatMap_cons
      rcases Nat.lt_or_ge n (writeOp op).length with hlt | hge
      · -- the cut is inside the first record
        have hcut : (journal (op :: log)).take n = (writeOp op).take n := by
          rw [hcons, List.take_append_of_le_length hlt.le]
        refine ⟨0, Nat.zero_le _, fun i _ => ?_, fun turns _ => ?_⟩
        · refine iff_of_false ?_ (Nat.not_lt_zero i)
          cases i with
          | zero =>
              rw [recordEnd_zero]
              omega
          | succ i =>
              rw [recordEnd_succ]
              omega
        · rw [hcut]
          cases turns with
          | zero => rfl
          | succ turns =>
              rw [replayLoop, torn_readOp hop n hlt]
              rfl
      · have hcut : (journal (op :: log)).take n =
            writeOp op ++ (journal log).take (n - (writeOp op).length) := by
          rw [hcons, List.take_append, List.take_of_length_le hge]
        obtain ⟨k, hk, hends, hreplay⟩ := ih hlog (n - (writeOp op).length) (op.applyTo map)
        refine ⟨k + 1, Nat.succ_le_succ hk, fun i hi => ?_, fun turns hturns => ?_⟩
        · cases i with
          | zero =>
              rw [recordEnd_zero]
              exact iff_of_true hge (Nat.succ_pos k)
          | succ i =>
              have hrest := hends i (Nat.lt_of_succ_lt_succ hi)
              rw [recordEnd_succ]
              omega
        · rw [hcut, List.length_append] at hturns
          have hpos := List.length_pos_iff.mpr (writeOp_ne_nil op)
          obtain ⟨turns, rfl⟩ := Nat.exists_eq_succ_of_ne_zero (by omega : turns ≠ 0)
          rw [hcut, replayLoop, reads_readOp hop]
          simp only [hreplay turns (by omega), List.take_succ_cons, List.foldl_cons]

/-- Whatever the cut, `Replay` ends, and it has applied the operations whose
records lie before the cut and no other. -/
theorem replay_torn (hlog : ∀ op ∈ log, op.InRange) (n : Nat) (map : VaultMap) :
    ∃ k, k ≤ log.length ∧ (∀ i < log.length, recordEnd log i ≤ n ↔ i < k) ∧
      (replay (some ((journal log).take n)) map).1 = (log.take k).foldl JOp.applyTo map ∧
      ∀ turns, ((journal log).take n).length ≤ turns →
        replayLoop turns ((journal log).take n) map = ((log.take k).foldl JOp.applyTo map, k) := by
  obtain ⟨k, hk, hends, hloop⟩ := replayLoop_torn hlog n map
  refine ⟨k, hk, hends, ?_, hloop⟩
  rw [replay, hloop _ le_rfl]

def twoRecords : List JOp := [.insert (letter 97 zero_ne_a) default 7, .remove default]

theorem replay_torn_twoRecords :
    ∃ k, k ≤ twoRecords.length ∧ (∀ i < twoRecords.length, recordEnd twoRecords i ≤ 10 ↔ i < k) ∧
      (replay (some ((journal twoRecords).take 10)) .empty).1 =
        (twoRecords.take k).foldl JOp.applyTo .empty ∧
      ∀ turns, ((journal twoRecords).take 10).length ≤ turns →
        replayLoop turns ((journal twoRecords).take 10) .empty =
          ((twoRecords.take k).foldl JOp.applyTo .empty, k) :=
  replay_torn (by decide +kernel) 10 .empty

/-! Records that do not fit their length fields. -/

theorem readString8_size {s : CString} (h : readString8 file = some (s, rest)) :
    s.size ≤ 255 := by
  obtain ⟨⟨len8, file'⟩, -, hchars⟩ := Option.bind_eq_some_iff.mp h
  obtain ⟨⟨chars, file''⟩, hread, hdone⟩ := Option.bind_eq_some_iff.mp hchars
  simp only [readChars, take, Option.ite_none_right_eq_some, Option.some.injEq,
    Prod.mk.injEq] at hread
  obtain ⟨hlen, rfl, -⟩ := hread
  cases hdone
  have hsize := CString.size_ofMemory_le (file'.take len8.toNat) []
  have hbyte := len8.isLt
  rw [List.length_take] at hsize
  omega

theorem readString16_size {s : CString} (h : readString16 file = some (s, rest)) :
    s.size ≤ 65535 := by
  obtain ⟨⟨len16, file'⟩, -, hchars⟩ := Option.bind_eq_some_iff.mp h
  obtain ⟨⟨chars, file''⟩, hread, hdone⟩ := Option.bind_eq_some_iff.mp hchars
  simp only [readChars, take, Option.ite_none_right_eq_some, Option.some.injEq,
    Prod.mk.injEq] at hread
  obtain ⟨hlen, rfl, -⟩ := hread
  cases hdone
  have hsize := CString.size_ofMemory_le (file'.take len16.toNat) []
  have hbyte := len16.isLt
  rw [List.length_take] at hsize
  omega

theorem readOp_inRange (h : readOp file = some (some op, rest)) : op.InRange := by
  obtain ⟨⟨temp8, file'⟩, -, hop⟩ := Option.bind_eq_some_iff.mp h
  dsimp only at hop
  split at hop
  next =>
      cases hop
      trivial
  next =>
      split at hop
      next =>
          obtain ⟨_, -, hop⟩ := Option.bind_eq_some_iff.mp hop
          obtain ⟨_, -, hop⟩ := Option.bind_eq_some_iff.mp hop
          cases hop
          trivial
      next =>
          split at hop
          next =>
              obtain ⟨_, -, hop⟩ := Option.bind_eq_some_iff.mp hop
              obtain ⟨_, hkey, hop⟩ := Option.bind_eq_some_iff.mp hop
              obtain ⟨_, hval, hop⟩ := Option.bind_eq_some_iff.mp hop
              cases hop
              exact ⟨readString8_size hkey, readString16_size hval⟩
          next =>
              split at hop
              next =>
                  obtain ⟨_, hkey, hop⟩ := Option.bind_eq_some_iff.mp hop
                  cases hop
                  exact readString8_size hkey
              next => cases hop

def recordsIn : Nat → List Byte → List JOp
  | 0, _ => []
  | turns + 1, file =>
      match readOp file with
      | some (some op, rest) => op :: recordsIn turns rest
      | _ => []

def records (file : Option (List Byte)) : List JOp :=
  file.elim [] fun bytes => recordsIn bytes.length bytes

theorem replayLoop_fst (turns : Nat) (file : List Byte) (map : VaultMap) :
    (replayLoop turns file map).1 = (recordsIn turns file).foldl JOp.applyTo map := by
  induction turns generalizing file map with
  | zero => rfl
  | succ turns ih =>
      rw [replayLoop, recordsIn]
      split
      next hread => rw [hread]; rfl
      next hread => rw [hread]; rfl
      next op rest hread =>
          rw [hread]
          exact ih rest (op.applyTo map)

theorem replay_records (file : Option (List Byte)) (map : VaultMap) :
    (replay file map).1 = (records file).foldl JOp.applyTo map := by
  cases file with
  | none => rfl
  | some bytes => exact replayLoop_fst bytes.length bytes map

theorem recordsIn_inRange (turns : Nat) (file : List Byte) :
    ∀ op ∈ recordsIn turns file, op.InRange := by
  induction turns generalizing file with
  | zero => exact fun op hop => absurd hop List.not_mem_nil
  | succ turns ih =>
      rw [recordsIn]
      split
      next op rest hread => exact List.forall_mem_cons.mpr ⟨readOp_inRange hread, ih rest⟩
      next => exact fun op hop => absurd hop List.not_mem_nil

theorem records_inRange (file : Option (List Byte)) : ∀ op ∈ records file, op.InRange := by
  cases file with
  | none => exact fun op hop => absurd hop List.not_mem_nil
  | some bytes => exact recordsIn_inRange bytes.length bytes

theorem redo_inRange {ops : List JOp} (hops : ∀ op ∈ ops, op.InRange)
    {before : Option (CString × Time)}
    (hbefore : ∀ entry ∈ before, key.size ≤ 255 ∧ entry.1.size ≤ 65535)
    (h : redo JOp.effect ops key before = some entry) :
    key.size ≤ 255 ∧ entry.1.size ≤ 65535 := by
  induction ops generalizing before with
  | nil => exact hbefore entry h
  | cons op ops ih =>
      obtain ⟨hop, hops⟩ := List.forall_mem_cons.mp hops
      refine ih hops (fun entry hentry => ?_) h
      cases op with
      | clear => cases hentry
      | prune start «end» => exact hbefore entry (Option.filter_eq_some_iff.mp hentry).1
      | insert k val stamp =>
          simp only [JOp.effect] at hentry
          split at hentry
          next hkey =>
              cases hentry
              exact ⟨hkey ▸ hop.1, hop.2⟩
          next => exact hbefore entry hentry
      | remove k =>
          simp only [JOp.effect] at hentry
          split at hentry
          next => cases hentry
          next => exact hbefore entry hentry

theorem redo_long {ops : List JOp} (hops : ∀ op ∈ ops, op.InRange) {key' : CString}
    (hkey : 255 < key.size) (hkey' : 255 < key'.size) (before : Option (CString × Time)) :
    redo JOp.effect ops key before = redo JOp.effect ops key' before := by
  induction ops generalizing before with
  | nil => rfl
  | cons op ops ih =>
      obtain ⟨hop, hops⟩ := List.forall_mem_cons.mp hops
      have hne : ∀ {k : CString}, k.size ≤ 255 → key ≠ k ∧ key' ≠ k := by
        intro k hk
        constructor
        · rintro rfl
          omega
        · rintro rfl
          omega
      have heffect : op.effect key before = op.effect key' before := by
        cases op with
        | clear => rfl
        | prune start «end» => rfl
        | insert k val stamp =>
            simp only [JOp.effect, if_neg (hne hop.1).1, if_neg (hne hop.1).2]
        | remove k => simp only [JOp.effect, if_neg (hne hop).1, if_neg (hne hop).2]
      rw [redo_cons, redo_cons, heffect, ih hops]

def Replays (log : List JOp) : Prop :=
  ∀ map : VaultMap, map.WellFormed →
    (replay (some (journal log)) map).1.contents = (log.foldl JOp.applyTo map).contents

theorem replays_of_inRange (hlog : ∀ op ∈ log, op.InRange) : Replays log := by
  intro map _
  rw [journal, replay_log hlog]

theorem not_replays_of_long (hop : ¬ op.InRange) : ¬ Replays [op] := by
  intro hreplays
  have hops := records_inRange (some (journal [op]))
  cases op with
  | clear => exact hop trivial
  | prune start «end» => exact hop trivial
  | insert key val stamp =>
      -- the entry is too long to come out of a journal
      have hmap := replay_records (some (journal [.insert key val stamp])) .empty
      have hkey := congrFun (hreplays .empty THash.empty_wellFormed) key
      rw [hmap, contents_foldl_applyTo THash.empty_wellFormed, List.foldl_cons, List.foldl_nil,
        contents_applyTo THash.empty_wellFormed, JOp.effect, if_pos rfl, THash.contents_empty] at hkey
      exact hop (redo_inRange hops (by simp) hkey)
  | remove key =>
      -- what takes this key away takes every long key away
      have hlong : 255 < key.size := Nat.lt_of_not_le hop
      obtain ⟨other, hother, hne⟩ : ∃ other : CString, 255 < other.size ∧ other ≠ key := by
        refine ⟨⟨1 :: key.bytes, List.not_mem_cons_of_ne_of_not_mem (by decide) key.noNul⟩, ?_,
          fun heq => ?_⟩
        · exact hlong.trans (Nat.lt_succ_self _)
        · have hlen := congrArg CString.size heq
          simp [CString.size] at hlen
      have hone := THash.insert_wellFormed THash.empty_wellFormed key key 0
      have htwo := THash.insert_wellFormed hone other key 0
      have hmap := replay_records (some (journal [.remove key]))
        ((THash.insert .empty key key 0).insert other key 0)
      generalize records (some (journal [.remove key])) = ops at hops hmap
      have hcontents : ∀ k, redo JOp.effect ops k
          (((THash.insert .empty key key 0).insert other key 0).contents k) =
            (JOp.remove key).effect k
              (((THash.insert .empty key key 0).insert other key 0).contents k) := by
        intro k
        rw [← contents_foldl_applyTo htwo, ← contents_applyTo htwo, ← hmap]
        exact congrFun (hreplays _ htwo) k
      have hgone := hcontents key
      have hkept := hcontents other
      rw [THash.contents_insert hone, if_neg hne.symm, THash.contents_insert THash.empty_wellFormed,
        if_pos rfl, JOp.effect, if_pos rfl] at hgone
      rw [THash.contents_insert hone, if_pos rfl, JOp.effect, if_neg hne,
        ← redo_long hops hlong hother, hgone] at hkept
      cases hkept

/-- Sequences of these operations are all replayed, when all of these operations
fit their records, and only then. -/
theorem replays_iff_inRange (ops : Set JOp) :
    (∀ log : List JOp, (∀ op ∈ log, op ∈ ops) → Replays log) ↔ ∀ op ∈ ops, op.InRange := by
  constructor
  · intro hall op hop
    by_contra hrange
    exact not_replays_of_long hrange (hall [op] (by simpa using hop))
  · exact fun hrange log hlog => replays_of_inRange fun op hop => hrange op (hlog op hop)

end

def longKey : CString :=
  ⟨List.replicate 256 97, fun hmem => absurd (List.eq_of_mem_replicate hmem) (by decide)⟩

theorem not_replays_longKey : ¬ Replays [.insert longKey default 7] := by
  refine not_replays_of_long fun hop => ?_
  have hsize : longKey.size = 256 := List.length_replicate
  have hfits := hop.1
  omega

end AmxModC.Vault
