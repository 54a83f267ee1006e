import AmxModC.Format.Render

namespace AmxModC.Format

open Foundation

/-! A run of `atcprintf` follows the pieces of its format, as long as what it reads is not
what it has written. -/

/-- The destination has room for so many cells; `state` is what it is with a text written to
it, and the inputs are found there unchanged. -/
structure Tracks {σ : Type} {d : Nat} (inputs : Inputs d) (a : Access σ d) (room : Nat)
    (state : List (BitVec d) → σ) : Prop where
  fmt : ∀ text, text.length ≤ room → Extends inputs.fmt (a.fmt (state text))
  arg : ∀ text address, text.length ≤ room →
    Extends (inputs.arg address) (a.arg (state text) address)
  vector : ∀ text pointer, text.length ≤ room →
    Extends (inputs.vector pointer) (a.vector (state text) pointer)
  put : ∀ text ch, text.length < room →
    a.put (state text) text.length ch = some (state (text ++ [ch]))
  full : ∀ text ch, text.length = room → a.put (state text) text.length ch = none
  float : a.float = inputs.float

section

variable {σ : Type} {d : Nat} {inputs : Inputs d} {a : Access σ d} {room : Nat}
  {state : List (BitVec d) → σ}

def written (state : List (BitVec d) → σ) (text : List (BitVec d)) (llen : Nat) : Output σ :=
  ⟨state text, text.length, llen⟩

theorem write_append (o : Output σ) (first second : List (BitVec d)) :
    a.write o (first ++ second) = (a.write o first).bind fun o => a.write o second := by
  induction first generalizing o with
  | nil => rfl
  | cons ch first ih =>
      rw [List.cons_append]
      simp only [Access.write, Option.bind_eq_bind, Option.bind_assoc, ih]

namespace Tracks

theorem write_eq (h : Tracks inputs a room state) (text before : List (BitVec d)) (llen : Nat)
    (hbefore : before.length ≤ room) :
    a.write (written state before llen) text =
      if before.length + text.length ≤ room then
        some (written state (before ++ text) (llen - text.length))
      else none := by
  induction text generalizing before llen with
  | nil => simp [Access.write, hbefore]
  | cons ch text ih =>
      rw [Access.write, Option.bind_eq_bind]
      by_cases hroom : before.length < room
      · have hput := h.put before ch hroom
        have hlength : (before ++ [ch]).length = before.length + 1 := by simp
        have hrest := ih (before ++ [ch]) (llen - 1) (by omega)
        rw [written, hlength] at hrest
        rw [written, hput, Option.bind_some, hrest, List.length_cons, List.append_assoc,
          List.singleton_append]
        have hspace : llen - 1 - text.length = llen - (text.length + 1) := by omega
        have hsum : before.length + 1 + text.length = before.length + (text.length + 1) := by omega
        rw [hspace, hsum]
      · have hfull := h.full before ch (by omega)
        rw [written, hfull, Option.bind_none, List.length_cons, if_neg (by omega)]

variable {before : List (BitVec d)} {llen : Nat}

theorem write_some (h : Tracks inputs a room state) (hbefore : before.length ≤ room)
    {text : List (BitVec d)} {o : Output σ}
    (hwrite : a.write (written state before llen) text = some o) :
    before.length + text.length ≤ room ∧
      o = written state (before ++ text) (llen - text.length) := by
  rw [h.write_eq text before llen hbefore] at hwrite
  split at hwrite
  next hroom =>
      cases hwrite
      exact ⟨hroom, rfl⟩
  next => cases hwrite

theorem copyString_eq (h : Tracks inputs a room state) {cells : Nat → Option Cell}
    {read : σ → Nat → Option Cell}
    (hread : ∀ text : List (BitVec d), text.length ≤ room → Extends cells (read (state text)))
    {size i : Nat} {found : List Cell} (hcells : readCells cells size i = some found)
    (hbefore : before.length ≤ room) :
    a.copyString read size i (written state before llen) =
      a.write (written state before llen) (found.map (BitVec.setWidth d)) := by
  induction size generalizing i found before llen with
  | zero =>
      cases hcells
      rfl
  | succ size ih =>
      simp only [readCells, Option.bind_eq_bind, Option.bind_eq_some_iff] at hcells
      obtain ⟨c, hc, rest, hrest, hout⟩ := hcells
      cases hout
      have hfound : read (written state before llen).state i = some c :=
        hread before hbefore i c hc
      have hsplit : (c :: rest).map (BitVec.setWidth d) =
          [c.setWidth d] ++ rest.map (BitVec.setWidth d) := rfl
      rw [Access.copyString, hfound, hsplit, write_append, Option.bind_eq_bind,
        Option.bind_some]
      refine Option.bind_congr fun o hwrite => ?_
      obtain ⟨hroom, rfl⟩ := h.write_some hbefore hwrite
      exact ih hrest (by simpa using hroom)

theorem addString_eq (h : Tracks inputs a room state) (llen : Nat) {cells : Nat → Option Cell}
    (read : σ → Nat → Option Cell)
    (hread : ∀ text : List (BitVec d), text.length ≤ room → Extends cells (read (state text)))
    {fuel : Nat} {width prec : Cell} {piece : Piece d}
    (hpiece : stringPiece cells fuel width prec = some piece) (hbefore : before.length ≤ room) :
    a.addString read fuel width prec (written state before llen) =
      if piece.string = true ∧ 2 ^ 31 ≤ llen then none
      else a.write (written state before llen) (piece.text.take llen) := by
  simp only [stringPiece, Option.bind_eq_bind, Option.bind_eq_some_iff] at hpiece
  obtain ⟨size, hsize, found, hfound, hout⟩ := hpiece
  cases hout
  have hlength := length_readCells hfound
  have hsize' := stringSize_extends (hread before hbefore) hsize
  rw [Access.addString]
  change (stringSize (read (state before)) fuel prec).bind _ = _
  rw [hsize', Option.bind_some]
  change (if 2 ^ 31 ≤ llen then none else _) = _
  refine if_congr (by simp) rfl ?_
  change (a.copyString read (min size llen) 0 (written state before llen)).bind _ = _
  rw [h.copyString_eq hread (readCells_take (min_le_left size llen) hfound) hbefore,
    List.take_append, write_append]
  have htake : (found.take (min size llen)).map (BitVec.setWidth d) =
      (found.map (BitVec.setWidth d)).take llen := by
    rw [← List.map_take, List.take_eq_take_min (i := llen), hlength, min_comm]
  rw [htake]
  refine Option.bind_congr fun o hwrite => ?_
  obtain ⟨_, rfl⟩ := h.write_some hbefore hwrite
  congr 1
  have hpad := (padLeft_eq 32 (show 0 < 2 ^ 31 by decide)
    (llen - ((found.map (BitVec.setWidth d)).take llen).length)
    (width - BitVec.ofNat 32 (min size llen))).1
  refine (congrArg (List.map (chr d)) hpad).trans ?_
  rw [List.map_take, List.map_replicate, List.length_take, List.length_map, hlength]
  obtain hfits | hcut := le_total size llen
  · rw [min_eq_left hfits, min_eq_right hfits]
    simp
  · have hnone : llen - min llen size = 0 := by omega
    have hover : llen - size = 0 := by omega
    rw [hnone, hover, List.take_zero, List.take_zero]

theorem number_eq (h : Tracks inputs a room state) {address : Cell} {text : Cell → List Byte}
    {add : Cell → List Byte} (hadd : ∀ value, add value = (text value).take llen)
    {piece : Piece d} (hpiece : inputs.numberPiece address text = some piece)
    (hbefore : before.length ≤ room) :
    ((a.arg (state before) address 0).bind fun value =>
        a.write (written state before llen) ((add value).map (chr d))) =
      if piece.string = true ∧ 2 ^ 31 ≤ llen then none
      else a.write (written state before llen) (piece.text.take llen) := by
  simp only [Inputs.numberPiece, Option.bind_eq_bind, Option.bind_eq_some_iff] at hpiece
  obtain ⟨value, hvalue, hout⟩ := hpiece
  cases hout
  rw [h.arg before address hbefore 0 value hvalue, Option.bind_some, hadd, List.map_take,
    if_neg (by simp)]

theorem convert_eq (h : Tracks inputs a room state) {fuel : Nat} {directive : Directive}
    {address : Cell} {kind : Conversion} {piece : Piece d}
    (hpiece : inputs.piece fuel directive address kind = some piece)
    (hkind : kind ≠ .terminator ∧ kind ≠ .other) (hbefore : before.length ≤ room)
    (hllen : llen ≠ 0) :
    a.convert fuel directive address (written state before llen) kind =
      if piece.string = true ∧ 2 ^ 31 ≤ llen then none
      else a.write (written state before llen) (piece.text.take llen) := by
  cases kind with
  | char =>
      simp only [Inputs.piece, Option.bind_eq_bind, Option.bind_eq_some_iff] at hpiece
      obtain ⟨value, hvalue, hout⟩ := hpiece
      cases hout
      have hfound := h.arg before address hbefore 0 value hvalue
      change (a.arg (state before) address 0).bind _ = _
      rw [hfound, Option.bind_some, if_neg (by simp),
        List.take_of_length_le (show 1 ≤ llen by omega)]
  | int => exact h.number_eq (fun value => addInt_eq_take _ _ _ _) hpiece hbefore
  | uint => exact h.number_eq (fun value => addUInt_eq_take _ _ _ _) hpiece hbefore
  | hex upper => exact h.number_eq (fun value => addHex_eq_take _ _ _ _) hpiece hbefore
  | float =>
      simp only [Inputs.piece, Option.bind_eq_bind, Option.bind_eq_some_iff] at hpiece
      obtain ⟨value, hvalue, hout⟩ := hpiece
      cases hout
      have hfound := h.arg before address hbefore 0 value hvalue
      change (a.arg (state before) address 0).bind _ = _
      rw [hfound, Option.bind_some, h.float, if_neg (by simp)]
      rfl
  | vector =>
      simp only [Inputs.piece, Option.bind_eq_bind, Option.bind_eq_some_iff] at hpiece
      obtain ⟨pointer, hpointer, hstring⟩ := hpiece
      have hfound := h.arg before address hbefore 0 pointer hpointer
      change (a.arg (state before) address 0).bind _ = _
      rw [hfound, Option.bind_some]
      exact h.addString_eq llen (fun state => a.vector state pointer)
        (fun text htext => h.vector text pointer htext) hstring hbefore
  | string =>
      exact h.addString_eq llen (fun state => a.arg state address)
        (fun text htext => h.arg text address htext) hpiece hbefore
  | terminator => exact absurd rfl hkind.1
  | other => exact absurd rfl hkind.2

end Tracks

structure Follows (state : List (BitVec d) → σ) (room maxlen : Nat) (before : List (BitVec d))
    (llen : Nat) (ps : List (Piece d)) (ending : Ending) (result : Option (Result σ)) : Prop where
  beyond : ¬ WithinInt ps llen → result = none
  failed : WithinInt ps llen → ending = .failed → (text ps).length < llen →
    result = if before.length + (text ps).length ≤ room then some (.error (state (before ++ text ps)))
      else none
  finished : WithinInt ps llen → (ending = .finished ∨ llen ≤ (text ps).length) →
    before.length + ((text ps).take llen).length < room →
    ∃ arg, result = some (.done (state (before ++ (text ps).take llen ++ [0]))
      (maxlen - (llen - (text ps).length)) arg)
  full : WithinInt ps llen → (ending = .finished ∨ llen ≤ (text ps).length) →
    room ≤ before.length + ((text ps).take llen).length → result = none

theorem error_follows {before : List (BitVec d)} {llen maxlen : Nat}
    (hbefore : before.length ≤ room) (hllen : llen ≠ 0) :
    Follows state room maxlen before llen [] .failed (some (.error (state before))) := by
  refine ⟨fun hnot => absurd trivial hnot, fun _ _ _ => ?_, fun _ hend => ?_, fun _ hend => ?_⟩
  · rw [if_pos (by simpa [text] using hbefore)]
    simp [text]
  · simp [text, hllen] at hend
  · simp [text, hllen] at hend

namespace Tracks

variable {before : List (BitVec d)} {llen maxlen : Nat} {ps : List (Piece d)} {ending : Ending}

theorem done_follows (h : Tracks inputs a room state) (hbefore : before.length ≤ room)
    (arg : Int) (htext : (text ps).take llen = []) (hwithin : WithinInt ps llen)
    (hending : ending = .finished ∨ llen ≤ (text ps).length)
    (hspace : maxlen - llen = maxlen - (llen - (text ps).length)) :
    Follows state room maxlen before llen ps ending
      (a.done maxlen arg (written state before llen)) := by
  refine ⟨fun hnot => absurd hwithin hnot, fun _ hfailed hlt => ?_, fun _ _ hroom => ?_,
    fun _ _ hroom => ?_⟩
  · obtain hfinished | hle := hending
    · rw [hfailed] at hfinished
      cases hfinished
    · exact absurd hlt (not_lt.mpr hle)
  · rw [htext, List.length_nil, Nat.add_zero] at hroom
    refine ⟨arg, ?_⟩
    change (a.put (state before) before.length 0).bind _ = _
    rw [h.put before 0 hroom, htext, List.append_nil, ← hspace]
    rfl
  · rw [htext, List.length_nil, Nat.add_zero] at hroom
    change (a.put (state before) before.length 0).bind _ = _
    rw [h.full before 0 (by omega)]
    rfl

theorem follows_cons (h : Tracks inputs a room state) (hbefore : before.length ≤ room)
    (hllen : llen ≠ 0) (piece : Piece d) (next : Output σ → Option (Result σ))
    (hnext : (before ++ piece.text.take llen).length ≤ room →
      Follows state room maxlen (before ++ piece.text.take llen) (llen - piece.text.length) ps
        ending (next (written state (before ++ piece.text.take llen)
          (llen - piece.text.length)))) :
    Follows state room maxlen before llen (piece :: ps) ending
      ((if piece.string = true ∧ 2 ^ 31 ≤ llen then none
        else a.write (written state before llen) (piece.text.take llen)).bind next) := by
  have hlength : (text (piece :: ps)).length = piece.text.length + (text ps).length := by
    rw [text_cons, List.length_append]
  have htake : (text (piece :: ps)).take llen =
      piece.text.take llen ++ (text ps).take (llen - piece.text.length) := by
    rw [text_cons, List.take_append]
  have hwithin : WithinInt (piece :: ps) llen ↔ ¬ (piece.string = true ∧ 2 ^ 31 ≤ llen) ∧
      WithinInt ps (llen - piece.text.length) := by
    rw [WithinInt, or_iff_right hllen, not_and, not_le]
  have hspace : llen - (piece.text.take llen).length = llen - piece.text.length := by
    rw [List.length_take]
    omega
  by_cases hhuge : piece.string = true ∧ 2 ^ 31 ≤ llen
  · rw [if_pos hhuge, Option.bind_none]
    have hnot : ¬ WithinInt (piece :: ps) llen := fun hin => (hwithin.mp hin).1 hhuge
    exact ⟨fun _ => rfl, fun hin => absurd hin hnot, fun hin => absurd hin hnot,
      fun hin => absurd hin hnot⟩
  · rw [if_neg hhuge, h.write_eq _ before llen hbefore, hspace]
    by_cases hroom : before.length + (piece.text.take llen).length ≤ room
    · rw [if_pos hroom, Option.bind_some]
      obtain ⟨hbeyond, hfailed, hfinished, hfull⟩ := hnext (by simpa using hroom)
      refine ⟨fun hnot => ?_, fun hin hend hlt => ?_, fun hin hend hfits => ?_,
        fun hin hend hover => ?_⟩
      · exact hbeyond fun hin => hnot (hwithin.mpr ⟨hhuge, hin⟩)
      · rw [hlength] at hlt
        have hall : piece.text.take llen = piece.text := List.take_of_length_le (by omega)
        have hrest := hfailed (hwithin.mp hin).2 hend (by omega)
        rw [hrest, hlength, text_cons, hall, List.length_append, List.append_assoc, Nat.add_assoc]
      · rw [htake, List.length_append] at hfits
        obtain ⟨arg, hrest⟩ := hfinished (hwithin.mp hin).2 (hend.imp_right (by omega))
          (by rw [List.length_append]; omega)
        refine ⟨arg, hrest.trans ?_⟩
        rw [htake, hlength, Nat.sub_sub, List.append_assoc before]
      · rw [htake, List.length_append] at hover
        exact hfull (hwithin.mp hin).2 (hend.imp_right (by omega))
          (by rw [List.length_append]; omega)
    · rw [if_neg hroom, Option.bind_none]
      refine ⟨fun _ => rfl, fun _ _ hlt => ?_, fun _ _ hfits => ?_, fun _ _ _ => rfl⟩
      · rw [hlength] at hlt
        have hall : piece.text.take llen = piece.text := List.take_of_length_le (by omega)
        rw [hall] at hroom
        rw [if_neg (by rw [hlength]; omega)]
      · rw [htake, List.length_append] at hfits
        omega

theorem follows_char (h : Tracks inputs a room state) (hbefore : before.length ≤ room)
    (hllen : llen ≠ 0) (ch : BitVec d) (next : Output σ → Option (Result σ))
    (hnext : (before ++ [ch]).length ≤ room →
      Follows state room maxlen (before ++ [ch]) (llen - 1) ps ending
        (next (written state (before ++ [ch]) (llen - 1)))) :
    Follows state room maxlen before llen (⟨false, [ch]⟩ :: ps) ending
      ((a.write (written state before llen) [ch]).bind next) := by
  have htake : [ch].take llen = [ch] := List.take_of_length_le (Nat.one_le_iff_ne_zero.mpr hllen)
  have hcons : Follows state room maxlen before llen (⟨false, [ch]⟩ :: ps) ending _ :=
    h.follows_cons hbefore hllen ⟨false, [ch]⟩ next
      (by simpa only [htake, List.length_singleton] using hnext)
  simpa [htake] using hcons

theorem withinInt_zero (ps : List (Piece d)) : WithinInt ps 0 := by
  cases ps with
  | nil => trivial
  | cons piece ps => exact Or.inl rfl

theorem refuses_eq (h : Tracks inputs a room state) {address : Cell} {kind : Conversion}
    {refused : Bool} (hrefused : inputs.refuses address kind = some refused)
    (hbefore : before.length ≤ room) :
    a.refuses (state before) address kind = some refused := by
  cases kind with
  | vector =>
      simp only [Inputs.refuses, Access.refuses, Option.bind_eq_bind,
        Option.bind_eq_some_iff] at hrefused ⊢
      obtain ⟨pointer, hpointer, hout⟩ := hrefused
      exact ⟨pointer, h.arg before address hbefore 0 pointer hpointer, hout⟩
  | char | int | uint | float | hex | string | terminator | other => exact hrefused

theorem argument_follows (h : Tracks inputs a room state) (hbefore : before.length ≤ room)
    (hllen : llen ≠ 0) {kind : Conversion} (hkind : kind ≠ .terminator ∧ kind ≠ .other)
    {fuel : Nat} {directive : Directive} {address : Cell} {missing : Prop} [Decidable missing]
    {rest : Option (List (Piece d) × Ending)} {next : Output σ → Option (Result σ)}
    (hnext : ∀ ps ending before llen, rest = some (ps, ending) → before.length ≤ room →
      Follows state room maxlen before llen ps ending (next (written state before llen)))
    (hpieces : (if missing then some ([], .failed)
      else (inputs.refuses address kind).bind fun refused =>
        if refused = true then some ([], .failed)
        else (inputs.piece fuel directive address kind).bind fun piece =>
          rest.bind fun found => some (piece :: found.1, found.2)) = some (ps, ending)) :
    Follows state room maxlen before llen ps ending
      (if missing then some (.error (state before))
      else (a.refuses (state before) address kind).bind fun refused =>
        if refused = true then some (.error (state before))
        else (a.convert fuel directive address (written state before llen) kind).bind next) := by
  split at hpieces
  next hmissing =>
      rw [if_pos hmissing]
      cases hpieces
      exact error_follows hbefore hllen
  next hmissing =>
      rw [if_neg hmissing]
      simp only [Option.bind_eq_some_iff] at hpieces
      obtain ⟨refused, hrefused, hpieces⟩ := hpieces
      rw [h.refuses_eq hrefused hbefore, Option.bind_some]
      split at hpieces
      next hyes =>
          rw [if_pos hyes]
          cases hpieces
          exact error_follows hbefore hllen
      next hno =>
          rw [if_neg hno]
          simp only [Option.bind_eq_some_iff] at hpieces
          obtain ⟨piece, hpiece, ⟨others, ending'⟩, hrest, hout⟩ := hpieces
          cases hout
          rw [h.convert_eq hpiece hkind hbefore hllen]
          exact h.follows_cons hbefore hllen piece next fun hroom =>
            hnext others ending' _ _ hrest hroom

theorem loop_follows (h : Tracks inputs a room state) (args : Int) (params : Int → Cell)
    (maxlen : Nat) {fuel i : Nat} {arg : Int}
    (hpieces : inputs.pieces args params fuel i arg = some (ps, ending))
    (hbefore : before.length ≤ room) :
    Follows state room maxlen before llen ps ending
      (a.loop args params maxlen fuel i arg (written state before llen)) := by
  induction fuel generalizing i arg ps ending before llen with
  | zero => cases hpieces
  | succ fuel ih =>
      simp only [Inputs.pieces, Option.bind_eq_bind, Option.bind_eq_some_iff] at hpieces
      obtain ⟨ch, hch, hpieces⟩ := hpieces
      have hread : a.fmt (written state before llen).state i = some ch :=
        h.fmt before hbefore i ch hch
      rw [Access.loop, hread]
      change Follows state room maxlen before llen ps ending
        (if llen = 0 ∨ ch = 0 then _ else _)
      by_cases hllen : llen = 0
      · subst hllen
        rw [if_pos (Or.inl rfl)]
        exact h.done_follows hbefore arg rfl (withinInt_zero ps) (Or.inr (Nat.zero_le _))
          (by omega)
      · by_cases hend : ch = 0
        · rw [if_pos hend] at hpieces
          cases hpieces
          rw [if_pos (Or.inr hend)]
          exact h.done_follows hbefore arg List.take_nil trivial (Or.inl rfl) rfl
        · rw [if_neg hend] at hpieces
          rw [if_neg (not_or.mpr ⟨hllen, hend⟩)]
          by_cases hpercent : ch ≠ chr d 37
          · rw [if_pos hpercent] at hpieces ⊢
            simp only [Option.bind_eq_some_iff] at hpieces
            obtain ⟨⟨rest, ending'⟩, hrest, hout⟩ := hpieces
            cases hout
            exact h.follows_char hbefore hllen ch _ fun hroom => ih hrest hroom
          · rw [if_neg hpercent] at hpieces ⊢
            simp only [Option.bind_eq_some_iff] at hpieces
            obtain ⟨first, hfirst, ⟨ch', j, directive⟩, hscan, hpieces⟩ := hpieces
            have hread' : a.fmt (written state before llen).state (i + 1) = some first :=
              h.fmt before hbefore (i + 1) first hfirst
            have hscan' := scan_extends (h.fmt before hbefore) hscan
            rw [hread']
            change Follows state room maxlen before llen ps ending
              ((scan (a.fmt (state before)) fuel first (i + 2) {}).bind _)
            rw [hscan', Option.bind_some]
            cases hkind : conversion ch' with
            | terminator =>
                simp only [hkind] at hpieces ⊢
                cases hpieces
                refine h.follows_char hbefore hllen (chr d 37) _ fun hroom => ?_
                exact h.done_follows hroom arg List.take_nil trivial (Or.inl rfl) rfl
            | other =>
                simp only [hkind, Option.bind_eq_some_iff] at hpieces ⊢
                obtain ⟨⟨rest, ending'⟩, hrest, hout⟩ := hpieces
                cases hout
                exact h.follows_char hbefore hllen ch' _ fun hroom => ih hrest hroom
            | char | int | uint | float | hex | vector | string =>
                simp only [hkind] at hpieces ⊢
                exact h.argument_follows hbefore hllen ⟨by simp, by simp⟩
                  (fun ps ending before llen hrest hroom => ih hrest hroom) hpieces

end Tracks

end

end AmxModC.Format
