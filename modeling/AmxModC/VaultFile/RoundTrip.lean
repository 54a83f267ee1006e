import AmxModC.VaultFile.Model

namespace AmxModC.VaultFile

open Foundation

/-! Which vaults come back from their file. -/

/-- The objects that the file can hold: a word that starts with a letter, and a value on one
line that starts with no blank. -/
structure Plain (obj : Obj) : Prop where
  letter : obj.key.bytes.head?.any isAlpha = true
  word : ∀ c ∈ obj.key.bytes, isSpace c = false
  key_short : obj.key.bytes.length ≤ sz
  start : obj.value.bytes.head?.any (fun c => !isSpace c) = true
  line : ∀ c ∈ obj.value.bytes, c ≠ 10 ∧ c ≠ 13
  value_short : obj.value.bytes.length ≤ sz

structure WellFormed (vault : Vault) : Prop where
  distinct : Distinct Obj.key vault.head
  key : ∀ obj ∈ vault.head, obj.key.bytes ≠ []
  value : ∀ obj ∈ vault.head, obj.value.bytes ≠ []
  number : ∀ obj ∈ vault.head, Obj.create obj.key obj.value = obj

section

variable {key value : CString} {head : List Obj} {vault : Vault} {obj : Obj}

theorem mem_assign (h : obj ∈ assign key value head) : obj = Obj.create key value ∨ obj ∈ head := by
  induction head with
  | nil => exact .inl (List.mem_singleton.mp h)
  | cons other rest ih =>
      rw [assign] at h
      split at h
      next hkey =>
          rw [hkey] at h
          exact (List.mem_cons.mp h).imp_right (List.mem_cons_of_mem _)
      next =>
          rcases List.mem_cons.mp h with rfl | hrest
          · exact .inr List.mem_cons_self
          · exact (ih hrest).imp_right (List.mem_cons_of_mem _)

theorem map_key_assign (key value : CString) (head : List Obj) :
    (assign key value head).map Obj.key =
      if key ∈ head.map Obj.key then head.map Obj.key else head.map Obj.key ++ [key] := by
  induction head with
  | nil => rfl
  | cons other rest ih =>
      rw [assign, List.map_cons]
      by_cases hkey : other.key = key
      · rw [if_pos hkey, if_pos (hkey ▸ List.mem_cons_self)]
        rfl
      · rw [if_neg hkey, List.map_cons, ih]
        by_cases hmem : key ∈ rest.map Obj.key
        · rw [if_pos hmem, if_pos (List.mem_cons_of_mem _ hmem)]
        · have hfresh : key ∉ other.key :: rest.map Obj.key := fun h =>
            (List.mem_cons.mp h).elim (Ne.symm hkey) hmem
          rw [if_neg hmem, if_neg hfresh, List.cons_append]

theorem assign_fresh (h : key ∉ head.map Obj.key) :
    assign key value head = head ++ [Obj.create key value] := by
  induction head with
  | nil => rfl
  | cons other rest ih =>
      rw [List.map_cons, List.mem_cons, not_or] at h
      rw [assign, if_neg (Ne.symm h.1), ih h.2, List.cons_append]

theorem distinct_assign (h : Distinct Obj.key head) : Distinct Obj.key (assign key value head) := by
  rw [Distinct, map_key_assign]
  split
  next => exact h
  next hfresh => exact List.Nodup.append h (List.nodup_singleton key) (by simpa using hfresh)

theorem WellFormed.remove (h : WellFormed vault) (n : CString) : WellFormed (vault.remove n) where
  distinct := h.distinct.sublist ((List.eraseP_sublist).map _)
  key := fun obj hmem => h.key obj (List.eraseP_sublist.subset hmem)
  value := fun obj hmem => h.value obj (List.eraseP_sublist.subset hmem)
  number := fun obj hmem => h.number obj (List.eraseP_sublist.subset hmem)

theorem WellFormed.put (h : WellFormed vault) (k v : CString) : WellFormed (vault.put k v) := by
  rw [Vault.put]
  split
  next => exact h
  next hkey =>
      split
      next => exact h.remove k
      next hvalue =>
          refine ⟨distinct_assign h.distinct, fun obj hmem => ?_, fun obj hmem => ?_,
            fun obj hmem => ?_⟩
          · rcases mem_assign hmem with rfl | hold
            · exact hkey
            · exact h.key obj hold
          · rcases mem_assign hmem with rfl | hold
            · exact hvalue
            · exact h.value obj hold
          · rcases mem_assign hmem with rfl | hold
            · rfl
            · exact h.number obj hold

theorem WellFormed.run (h : WellFormed vault) (calls : List Call) :
    WellFormed (calls.foldl Call.run vault) := by
  induction calls generalizing vault with
  | nil => exact h
  | cons call calls ih =>
      cases call with
      | setVaultdata key value => exact ih (h.put key value)
      | removeVaultdata key => exact ih (h.remove key)

theorem wellFormed_create (path : CString) : WellFormed ⟨[], path⟩ where
  distinct := distinct_nil
  key := fun _ hmem => absurd hmem List.not_mem_nil
  value := fun _ hmem => absurd hmem List.not_mem_nil
  number := fun _ hmem => absurd hmem List.not_mem_nil

theorem path_run (calls : List Call) (vault : Vault) :
    (calls.foldl Call.run vault).path = vault.path := by
  induction calls generalizing vault with
  | nil => rfl
  | cons call calls ih =>
      rw [List.foldl_cons, ih]
      cases call with
      | setVaultdata key value =>
          rw [Call.run, Vault.put]
          split
          next => rfl
          next => split <;> rfl
      | removeVaultdata key => rfl

end

/-! A line of the file. -/

section

variable {spaces key buf rest text : List Byte} {c : Byte} {vault vault' : Vault} {obj : Obj}
  {fuel n : Nat}

theorem word_line (hspaces : ∀ c ∈ spaces, isSpace c = true) (hkey : ∀ c ∈ key, isSpace c = false)
    (hne : key ≠ []) (hc : isSpace c = true) (rest : List Byte) :
    word (spaces ++ key ++ c :: rest) = key ∧ afterWord (spaces ++ key ++ c :: rest) = c :: rest := by
  obtain ⟨d, key', rfl⟩ := List.exists_cons_of_ne_nil hne
  have hd : isSpace d = false := hkey d List.mem_cons_self
  have hdrop : (spaces ++ (d :: key') ++ c :: rest).dropWhile isSpace = (d :: key') ++ c :: rest := by
    rw [List.append_assoc, List.dropWhile_append_of_pos hspaces, List.cons_append,
      List.dropWhile_cons_of_neg (by simp [hd])]
  have hall : ∀ x ∈ d :: key', (!isSpace x) = true := fun x hx => by rw [hkey x hx]; rfl
  have hstop : ¬ (!isSpace c) = true := by simp [hc]
  rw [word, afterWord, hdrop, List.takeWhile_append_of_pos hall, List.dropWhile_append_of_pos hall,
    List.takeWhile_cons_of_neg (p := fun c => !isSpace c) hstop,
    List.dropWhile_cons_of_neg (p := fun c => !isSpace c) hstop, List.append_nil]
  exact ⟨rfl, rfl⟩

theorem getline_line (hbuf : ∀ c ∈ buf, c ≠ 0 ∧ c ≠ 10) (hn : buf.length ≤ n) (rest : List Byte) :
    getline n (buf ++ 10 :: rest) = (buf, if buf.length = n then 10 :: rest else rest) := by
  induction buf generalizing n with
  | nil => cases n <;> rfl
  | cons c buf ih =>
      obtain ⟨hc, hbuf⟩ := List.forall_mem_cons.mp hbuf
      obtain ⟨n, rfl⟩ := Nat.exists_eq_add_one_of_ne_zero (Nat.ne_of_gt (Nat.zero_lt_of_lt hn))
      have hgo : ¬ (c = 0 ∨ c = 10) := not_or.mpr hc
      rw [List.cons_append, getline, if_neg hgo, ih hbuf (Nat.le_of_succ_le_succ hn)]
      dsimp only
      rw [List.length_cons]
      congr 1
      exact if_congr Nat.add_right_cancel_iff.symm rfl rfl

theorem trimEnds_line (hbuf : ∀ c ∈ buf, c ≠ 10 ∧ c ≠ 13) : trimEnds buf = buf := by
  cases buf with
  | nil => rfl
  | cons c buf =>
      rw [trimEnds]
      congr 1
      refine List.map_congr_left (g := id) (fun c hc => ?_) |>.trans (List.map_id _)
      exact if_neg (not_or.mpr (hbuf c (List.mem_cons_of_mem _ hc)))

theorem loadLoop_line (hspaces : ∀ c ∈ spaces, isSpace c = true)
    (hkey : ∀ c ∈ key, isSpace c = false) (hne : key ≠ []) (hshort : key.length ≤ sz)
    (hc : isSpace c = true) (hstart : buf.head?.any (fun c => !isSpace c) = true)
    (hbuf : ∀ c ∈ buf, c ≠ 0 ∧ c ≠ 10) (hsz : buf.length ≤ sz) :
    loadLoop (fuel + 1) (spaces ++ key ++ c :: (buf ++ 10 :: rest)) vault =
      loadLoop fuel (if buf.length = sz then 10 :: rest else rest)
        (if key.head?.any isAlpha then vault.put (.ofMemory key) (.ofMemory (trimEnds buf))
        else vault) := by
  obtain ⟨hword, hafter⟩ := word_line hspaces hkey hne hc (buf ++ 10 :: rest)
  have hdrop : (c :: (buf ++ 10 :: rest)).dropWhile isSpace = buf ++ 10 :: rest := by
    cases buf with
    | nil => cases hstart
    | cons d buf =>
        have hd : ¬ isSpace d = true := by simpa using hstart
        rw [List.dropWhile_cons_of_pos hc, List.cons_append, List.dropWhile_cons_of_neg hd]
  have hsome : buf ++ 10 :: rest ≠ [] := List.append_ne_nil_of_right_ne_nil _ (List.cons_ne_nil _ _)
  rw [loadLoop, hword, hafter, hdrop, if_neg (not_lt.mpr hshort)]
  dsimp only
  rw [if_neg hsome, getline_line hbuf hsz]

theorem loadLoop_plain (hspaces : ∀ c ∈ spaces, isSpace c = true) (hplain : Plain obj)
    (hnumber : Obj.create obj.key obj.value = obj) (hne : obj.value.bytes ≠ [])
    (hfresh : obj.key ∉ vault.head.map Obj.key) :
    loadLoop (fuel + 1) (spaces ++ Vault.line obj ++ rest) vault =
      loadLoop fuel (if obj.value.bytes.length = sz then 10 :: rest else rest)
        { vault with head := vault.head ++ [obj] } := by
  have hkey : obj.key.bytes ≠ [] := by
    intro hnil
    have hletter := hplain.letter
    rw [hnil] at hletter
    cases hletter
  have hline : spaces ++ Vault.line obj ++ rest =
      spaces ++ obj.key.bytes ++ 9 :: (obj.value.bytes ++ 10 :: rest) := by
    simp only [Vault.line, List.append_assoc, List.cons_append, List.nil_append]
  have hbuf : ∀ c ∈ obj.value.bytes, c ≠ 0 ∧ c ≠ 10 := fun c hc =>
    ⟨fun hzero => obj.value.noNul (hzero ▸ hc), (hplain.line c hc).1⟩
  have hof : ∀ s : CString, CString.ofMemory s.bytes = s := fun s =>
    CString.ext (takeWhile_noNul s.noNul)
  rw [hline, loadLoop_line hspaces hplain.word hkey hplain.key_short rfl hplain.start hbuf
    hplain.value_short, if_pos hplain.letter, trimEnds_line hplain.line, hof, hof, Vault.put,
    if_neg hkey, if_neg hne, assign_fresh hfresh, hnumber]

theorem loadLoop_lines (spaces : List Byte) (vault : Vault) {objs : List Obj}
    (hspaces : ∀ c ∈ spaces, isSpace c = true)
    (hplain : ∀ obj ∈ objs, Plain obj) (hnumber : ∀ obj ∈ objs, Obj.create obj.key obj.value = obj)
    (hne : ∀ obj ∈ objs, obj.value.bytes ≠ []) (hdistinct : Distinct Obj.key (vault.head ++ objs))
    (hfuel : objs.length < fuel) :
    loadLoop fuel (spaces ++ objs.flatMap Vault.line) vault =
      some { vault with head := vault.head ++ objs } := by
  induction objs generalizing spaces vault fuel with
  | nil =>
      obtain ⟨fuel, rfl⟩ := Nat.exists_eq_add_one_of_ne_zero (Nat.ne_of_gt hfuel)
      have hword : word spaces = [] := by
        rw [word, dropWhile_spaces hspaces, List.takeWhile_nil]
      have hafter : (afterWord spaces).dropWhile isSpace = [] := by
        rw [afterWord, dropWhile_spaces hspaces]
        rfl
      rw [List.flatMap_nil, List.append_nil, List.append_nil, loadLoop, hword, hafter]
      rfl
  | cons obj objs ih =>
      obtain ⟨fuel, rfl⟩ :=
        Nat.exists_eq_add_one_of_ne_zero (Nat.ne_of_gt (Nat.zero_lt_of_lt hfuel))
      obtain ⟨hobj, hplain⟩ := List.forall_mem_cons.mp hplain
      obtain ⟨hcreate, hnumber⟩ := List.forall_mem_cons.mp hnumber
      obtain ⟨hvalue, hne⟩ := List.forall_mem_cons.mp hne
      have hfresh : obj.key ∉ vault.head.map Obj.key := by
        rw [Distinct, List.map_append, List.nodup_append] at hdistinct
        intro hmem
        exact hdistinct.2.2 _ hmem _ List.mem_cons_self rfl
      have hnext : vault.head ++ obj :: objs = (vault.head ++ [obj]) ++ objs := by
        rw [List.append_assoc, List.singleton_append]
      rw [hnext] at hdistinct ⊢
      rw [List.flatMap_cons, ← List.append_assoc, loadLoop_plain hspaces hobj hcreate hvalue hfresh]
      split
      next =>
          exact ih [10] _ (by decide) hplain hnumber hne hdistinct (Nat.lt_of_succ_lt_succ hfuel)
      next =>
          exact ih [] _ (fun _ hc => absurd hc List.not_mem_nil) hplain hnumber hne hdistinct
            (Nat.lt_of_succ_lt_succ hfuel)

theorem loadLoop_header (text : List Byte) (vault : Vault) :
    loadLoop (fuel + 1) (Vault.header ++ text) vault = loadLoop fuel text vault := by
  have hheader : Vault.header ++ text =
      [] ++ [59] ++ 32 :: ([68, 111, 110, 39, 116, 32, 109, 111, 100, 105, 102, 121, 33] ++
        10 :: text) := rfl
  rw [hheader, loadLoop_line (fun _ hc => absurd hc List.not_mem_nil) (by decide) (by decide)
    (by decide) rfl rfl (by decide) (by decide)]
  rfl

end

/-! What comes from any file is plain. -/

section

variable {key text buf rest : List Byte} {k v : CString} {vault vault' : Vault} {fuel n : Nat}

theorem getline_length (n : Nat) (text : List Byte) : (getline n text).1.length ≤ n := by
  induction n generalizing text with
  | zero => exact le_rfl
  | succ n ih =>
      cases text with
      | nil => exact Nat.zero_le _
      | cons c text =>
          rw [getline]
          split
          next => exact Nat.zero_le _
          next => exact Nat.succ_le_succ (ih text)

theorem getline_head (n : Nat) (text : List Byte) :
    ∀ c ∈ (getline n text).1.head?, c ∈ text.head? := by
  intro c hc
  cases n with
  | zero => cases hc
  | succ n =>
      cases text with
      | nil => cases hc
      | cons d text =>
          rw [getline] at hc
          split at hc
          next => cases hc
          next => exact hc

theorem length_ofMemory_le (s : List Byte) : (CString.ofMemory s).bytes.length ≤ s.length :=
  (List.takeWhile_sublist _).length_le

theorem length_trimEnds (buf : List Byte) : (trimEnds buf).length = buf.length := by
  cases buf with
  | nil => rfl
  | cons c buf => rw [trimEnds, List.length_cons, List.length_map, List.length_cons]

theorem value_plain (hstart : ∀ c ∈ buf.head?, isSpace c = false)
    (hne : (CString.ofMemory (trimEnds buf)).bytes ≠ []) :
    (CString.ofMemory (trimEnds buf)).bytes.head?.any (fun c => !isSpace c) = true ∧
      ∀ c ∈ (CString.ofMemory (trimEnds buf)).bytes, c ≠ 10 ∧ c ≠ 13 := by
  cases buf with
  | nil => exact absurd rfl hne
  | cons d buf =>
      have hd : isSpace d = false := hstart d rfl
      have hvalue : (CString.ofMemory (trimEnds (d :: buf))).bytes =
          (d :: buf.map fun c => if c = 10 ∨ c = 13 then 0 else c).takeWhile (· ≠ 0) := rfl
      rw [hvalue] at hne ⊢
      have hgo : d ≠ 0 := by
        rintro rfl
        exact hne rfl
      rw [List.takeWhile_cons_of_pos (by simpa using hgo)]
      refine ⟨by simp [hd], fun c hc => ?_⟩
      rcases List.mem_cons.mp hc with rfl | hrest
      · constructor
        · rintro rfl
          cases hd
        · rintro rfl
          cases hd
      · have hnonzero : c ≠ 0 := by simpa using List.mem_takeWhile_imp hrest
        obtain ⟨c', -, rfl⟩ := List.mem_map.mp ((List.takeWhile_sublist _).subset hrest)
        split at hnonzero
        next => exact absurd rfl hnonzero
        next hother =>
            rw [if_neg hother]
            exact not_or.mp hother

theorem key_plain (hletter : key.head?.any isAlpha = true) (hword : ∀ c ∈ key, isSpace c = false) :
    (CString.ofMemory key).bytes.head?.any isAlpha = true ∧
      ∀ c ∈ (CString.ofMemory key).bytes, isSpace c = false := by
  refine ⟨?_, fun c hc => hword c ((List.takeWhile_sublist _).subset hc)⟩
  cases key with
  | nil => cases hletter
  | cons c key =>
      have hc : c ≠ 0 := by
        rintro rfl
        cases hletter
      have hkey : (CString.ofMemory (c :: key)).bytes = (c :: key).takeWhile (· ≠ 0) := rfl
      rw [hkey, List.takeWhile_cons_of_pos (by simpa using hc)]
      exact hletter

theorem mem_put {obj : Obj} (h : obj ∈ (vault.put k v).head) :
    obj ∈ vault.head ∨ v.bytes ≠ [] ∧ obj = Obj.create k v := by
  rw [Vault.put] at h
  split at h
  next => exact .inl h
  next =>
      split at h
      next => exact .inl (List.eraseP_sublist.subset h)
      next hvalue => exact (mem_assign h).symm.imp_right fun heq => ⟨hvalue, heq⟩

theorem loadLoop_all_plain (h : loadLoop fuel text vault = some vault')
    (hplain : ∀ obj ∈ vault.head, Plain obj) : ∀ obj ∈ vault'.head, Plain obj := by
  induction fuel generalizing text vault with
  | zero => cases h
  | succ fuel ih =>
      rw [loadLoop] at h
      dsimp only at h
      split at h
      next => cases h
      next hshort =>
          split at h
          next =>
              cases h
              exact hplain
          next =>
              refine ih h ?_
              split
              next hletter =>
                  intro obj hmem
                  rcases mem_put hmem with hold | ⟨hne, rfl⟩
                  · exact hplain obj hold
                  · have hstart : ∀ c ∈
                        (getline sz ((afterWord text).dropWhile isSpace)).1.head?,
                        isSpace c = false := by
                      intro c hc
                      have hhead := List.head?_dropWhile_not isSpace (afterWord text)
                      rw [getline_head _ _ c hc] at hhead
                      exact hhead
                    obtain ⟨hfirst, hword⟩ := key_plain hletter fun c hc => isSpace_of_mem_word hc
                    obtain ⟨hvalue, hline⟩ := value_plain hstart hne
                    refine ⟨hfirst, hword, ?_, hvalue, hline, ?_⟩
                    · exact (length_ofMemory_le _).trans (not_lt.mp hshort)
                    · refine (length_ofMemory_le _).trans ?_
                      rw [length_trimEnds]
                      exact getline_length _ _
              next => exact hplain

end

def Restores (vault : Vault) : Prop :=
  ∃ text vault', vault.saveVault true = some text ∧
    vault.loadVault (some text) = some (vault', true) ∧ ∀ n, vault'.find n = vault.find n

section

variable {vault : Vault}

theorem length_le_lines (objs : List Obj) : objs.length ≤ (objs.flatMap Vault.line).length := by
  induction objs with
  | nil => exact le_rfl
  | cons obj objs ih =>
      have hline : 1 ≤ (Vault.line obj).length := by
        rw [Vault.line, List.length_append, List.length_singleton]
        omega
      rw [List.flatMap_cons, List.length_append, List.length_cons]
      omega

theorem loadVault_saved (h : WellFormed vault) (hpath : vault.path.bytes ≠ [])
    (hplain : ∀ obj ∈ vault.head, Plain obj) :
    ∃ text, vault.saveVault true = some text ∧
      vault.loadVault (some text) = some (vault, true) := by
  have hopen : ¬ (vault.path.bytes = [] ∨ (!true) = true) := not_or.mpr ⟨hpath, by decide⟩
  refine ⟨_, if_neg hopen, ?_⟩
  have hlength := length_le_lines vault.head
  have hheader : Vault.header.length = 16 := rfl
  have hfuel : vault.head.length < (Vault.header ++ vault.head.flatMap Vault.line).length := by
    rw [List.length_append]
    omega
  have hlines := loadLoop_lines [] vault.clear (fun _ hc => absurd hc List.not_mem_nil) hplain
    h.number h.value h.distinct hfuel
  rw [List.nil_append] at hlines
  rw [Vault.loadVault, if_neg hpath, loadLoop_header, hlines]
  rfl

theorem restores_iff (h : WellFormed vault) (hpath : vault.path.bytes ≠ []) :
    Restores vault ↔ ∀ obj ∈ vault.head, Plain obj := by
  constructor
  · rintro ⟨text, vault', -, hload, hfind⟩ obj hmem
    rw [Vault.loadVault, if_neg hpath] at hload
    obtain ⟨loaded, hloop, heq⟩ := Option.map_eq_some_iff.mp hload
    obtain ⟨rfl, -⟩ := Prod.mk.inj heq
    have hfound : vault.find obj.key = some obj := (lookup_eq_some h.distinct).mpr ⟨hmem, rfl⟩
    rw [← hfind] at hfound
    exact loadLoop_all_plain hloop (fun _ hmem => absurd hmem List.not_mem_nil) obj
      (List.mem_of_find?_eq_some hfound)
  · intro hplain
    obtain ⟨text, hsave, hload⟩ := loadVault_saved h hpath hplain
    exact ⟨text, vault, hsave, hload, fun _ => rfl⟩

/-- Every vault that plugins can build comes back exactly if its objects are plain, and
then with its objects in their order. -/
theorem saved_vault_restores_iff {path : CString} (hpath : path.bytes ≠ []) (calls : List Call) :
    (Restores (calls.foldl Call.run ⟨[], path⟩) ↔
        ∀ obj ∈ (calls.foldl Call.run ⟨[], path⟩).head, Plain obj) ∧
      ((∀ obj ∈ (calls.foldl Call.run ⟨[], path⟩).head, Plain obj) →
        ∃ text, (calls.foldl Call.run ⟨[], path⟩).saveVault true = some text ∧
          (calls.foldl Call.run ⟨[], path⟩).loadVault (some text) =
            some (calls.foldl Call.run ⟨[], path⟩, true)) := by
  have hwell := (wellFormed_create path).run calls
  have hsame : (calls.foldl Call.run ⟨[], path⟩).path.bytes ≠ [] := by
    rw [path_run]
    exact hpath
  exact ⟨restores_iff hwell hsame, loadVault_saved hwell hsame⟩

end

/-! The vault in the file `v`, with the key `k`. -/

section

def pathV : CString := ⟨[118], by decide⟩

def keyK : CString := ⟨[107], by decide⟩

/-- The value is `1 2`. -/
theorem saved_vault_restores_k :
    Restores ([Call.setVaultdata keyK ⟨[49, 32, 50], by decide⟩].foldl Call.run ⟨[], pathV⟩) := by
  have hpath : pathV.bytes ≠ [] := by decide
  refine (saved_vault_restores_iff hpath _).1.mpr fun obj hmem => ?_
  obtain rfl := List.mem_singleton.mp hmem
  exact ⟨rfl, by decide, by decide, rfl, by decide, by decide⟩

/-- The key `_k` starts with no letter. -/
theorem vault_loses_a_key :
    ¬ ∀ (path : CString) (calls : List Call), path.bytes ≠ [] →
      Restores (calls.foldl Call.run ⟨[], path⟩) := by
  intro h
  have hrestores := h pathV [.setVaultdata ⟨[95, 107], by decide⟩ keyK] (by decide)
  have hplain := (restores_iff ((wellFormed_create pathV).run _) (by decide)).mp hrestores
  have hletter := (hplain _ List.mem_cons_self).letter
  revert hletter
  decide

end

end AmxModC.VaultFile
