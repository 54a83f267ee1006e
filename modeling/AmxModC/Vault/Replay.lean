import AmxModC.Foundation.Redo
import AmxModC.Vault.RoundTrip

namespace AmxModC.Vault

open Foundation Reader

/-! What the journal says, and what its replay does to a table. -/

namespace JOp

def InRange : JOp → Prop
  | insert key val _ => key.size ≤ 255 ∧ val.size ≤ 65535
  | remove key => key.size ≤ 255
  | clear | prune .. => True

instance (op : JOp) : Decidable op.InRange := by
  cases op <;> unfold InRange <;> infer_instance

def effect : JOp → CString → Option (CString × Time) → Option (CString × Time)
  | clear, _, _ => none
  | prune start «end», _, entry => entry.filter fun e => !THash.pruned start «end» e.2
  | insert key val stamp, k, entry => if k = key then some (val, stamp) else entry
  | remove key, k, entry => if k = key then none else entry

theorem redoable_effect (op : JOp) (key : CString) : Redoable (op.effect key) := by
  cases op with
  | clear => exact .inl fun _ _ => rfl
  | prune start «end» => exact .inr rfl
  | insert k val stamp =>
      by_cases hkey : key = k
      · exact .inl fun _ _ => by simp [effect, hkey]
      · exact .inr (if_neg hkey)
  | remove k =>
      refine .inr ?_
      change (if key = k then none else none) = none
      exact ite_self none

end JOp

section

variable {map : VaultMap}

theorem applyTo_wellFormed (hwf : map.WellFormed) (op : JOp) : (op.applyTo map).WellFormed := by
  cases op with
  | clear => exact THash.clear_wellFormed map
  | prune start «end» => exact THash.prune_wellFormed hwf start «end»
  | insert key val stamp => exact THash.insert_wellFormed hwf key val stamp
  | remove key => exact THash.remove_wellFormed hwf key

theorem contents_applyTo (hwf : map.WellFormed) (op : JOp) (key : CString) :
    (op.applyTo map).contents key = op.effect key (map.contents key) := by
  cases op with
  | clear => exact THash.contents_clear map
  | prune start «end» => exact THash.contents_prune hwf start «end» key
  | insert k val stamp => exact THash.contents_insert hwf k val stamp key
  | remove k => exact THash.contents_remove hwf k key

theorem foldl_applyTo_wellFormed (hwf : map.WellFormed) (log : List JOp) :
    (log.foldl JOp.applyTo map).WellFormed := by
  induction log generalizing map with
  | nil => exact hwf
  | cons op log ih => exact ih (applyTo_wellFormed hwf op)

theorem contents_foldl_applyTo (hwf : map.WellFormed) (log : List JOp) (key : CString) :
    (log.foldl JOp.applyTo map).contents key = redo JOp.effect log key (map.contents key) := by
  induction log generalizing map with
  | nil => rfl
  | cons op log ih =>
      rw [List.foldl_cons, ih (applyTo_wellFormed hwf op), contents_applyTo hwf, redo_cons]

end

/-! The records of the journal. -/

theorem reads_readString8 {s : CString} (hsize : s.size ≤ 255) :
    Reads readString8 (writeString s .small) s := by
  have hlen : (BitVec.ofNat 8 s.size).toNat = s.size := by
    rw [BitVec.toNat_ofNat]
    exact Nat.mod_eq_of_lt (Nat.lt_succ_of_le hsize)
  have hchars := (reads_readChars s).bind_pure fun key => CString.ofMemory (key ++ [0])
  rw [CString.ofMemory_terminated, ← hlen] at hchars
  exact (reads_readUInt8 _).bind hchars

theorem reads_readString16 {s : CString} (hsize : s.size ≤ 65535) :
    Reads readString16 (writeString s .medium) s := by
  have hlen : (BitVec.ofNat 16 s.size).toNat = s.size := by
    rw [BitVec.toNat_ofNat]
    exact Nat.mod_eq_of_lt (Nat.lt_succ_of_le hsize)
  have hchars := (reads_readChars s).bind_pure fun val => CString.ofMemory (val ++ [0])
  rw [CString.ofMemory_terminated, ← hlen] at hchars
  exact (reads_readUInt16 _).bind hchars

theorem reads_readOp {op : JOp} (hop : op.InRange) : Reads readOp (writeOp op) (some op) := by
  refine (reads_readUInt8 op.code).bind ?_
  cases op with
  | clear => exact reads_pure _
  | prune start «end» =>
      exact (reads_readUInt32 start).bind ((reads_readUInt32 «end»).bind_pure _)
  | insert key val stamp =>
      change Reads _ (writeInt32 stamp ++ writeString key .small ++ writeString val .medium) _
      rw [List.append_assoc]
      exact (reads_readUInt32 stamp).bind
        ((reads_readString8 hop.1).bind ((reads_readString16 hop.2).bind_pure _))
  | remove key => exact (reads_readString8 hop).bind_pure _

theorem writeOp_ne_nil (op : JOp) : writeOp op ≠ [] := by
  have hcode : writeUInt8 op.code ≠ [] := List.cons_ne_nil _ _
  simp [writeOp, hcode]

theorem length_le_length_log (log : List JOp) : log.length ≤ (log.flatMap writeOp).length := by
  induction log with
  | nil => exact le_rfl
  | cons op log ih =>
      have hop := List.length_pos_iff.mpr (writeOp_ne_nil op)
      rw [List.flatMap_cons, List.length_append, List.length_cons]
      omega

theorem replayLoop_log
    {log : List JOp}
    (hlog : ∀ op ∈ log, op.InRange)
    {turns : Nat}
    (hturns : log.length ≤ turns)
    (map : VaultMap) :
    replayLoop turns (log.flatMap writeOp) map = (log.foldl JOp.applyTo map, log.length) := by
  induction log generalizing turns map with
  | nil => cases turns <;> rfl
  | cons op log ih =>
      obtain ⟨hop, hlog⟩ := List.forall_mem_cons.mp hlog
      cases turns with
      | zero => simp at hturns
      | succ turns =>
          have hread := reads_readOp hop (log.flatMap writeOp)
          have hrest := ih hlog (Nat.le_of_succ_le_succ hturns) (op.applyTo map)
          rw [List.flatMap_cons, replayLoop, hread]
          simp only [hrest, List.foldl_cons, List.length_cons]

theorem replay_log {log : List JOp} (hlog : ∀ op ∈ log, op.InRange) (map : VaultMap) :
    replay (some (log.flatMap writeOp)) map = (log.foldl JOp.applyTo map, (log.length : Int)) := by
  rw [replay, replayLoop_log hlog (length_le_length_log log)]

end AmxModC.Vault
