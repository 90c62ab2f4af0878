import Dismissal.Proofs.Instant.Written
import Dismissal.Proofs.Json.Plain
import Dismissal.Store.Record
import Dismissal.Store.Table

/-!
# Stored items are read back

An item that was written as a record, or as a row of the table, is that item again when it is read,
whatever its instants are.

* `Record.decode_encode`: the bytes of a record.
* `Table.itemOf_rowOf`: the cells of a row.
-/

namespace Dismissal

open Json (Plain isPlain isPlain_iff isPlain_of_isDigit quotedBytes)

/-! ## Texts of records are plain -/

theorem Identity.plain_of_valid {value : String} (h : Identity.Valid value) : Plain value := by
  intro c hc
  have hallowed := List.all_eq_true.1 h.2.2 c hc
  unfold Identity.isAllowed Char.isAlphanum Char.isAlpha Char.isUpper Char.isLower
    Char.isDigit at hallowed
  simp only [Bool.or_eq_true, Bool.and_eq_true, decide_eq_true_eq, ge_iff_le,
    UInt32.le_iff_toNat_le, beq_iff_eq] at hallowed
  change ((((65 ≤ c.toNat ∧ c.toNat ≤ 90) ∨ (97 ≤ c.toNat ∧ c.toNat ≤ 122)) ∨
    (48 ≤ c.toNat ∧ c.toNat ≤ 57)) ∨ c = '-') ∨ c = '_' at hallowed
  rcases hallowed with (hrange | rfl) | rfl
  · refine isPlain_iff.2 ⟨by omega, by omega, ?_, ?_⟩
    · rintro rfl
      exact absurd hrange (by decide)
    · rintro rfl
      exact absurd hrange (by decide)
  · decide
  · decide

namespace Instant

private theorem plain_padded (w n : Nat) : ∀ c ∈ Text.padded w n, isPlain c = true :=
  fun _ h => isPlain_of_isDigit (Text.isDigit_of_mem_padded h)

private theorem plain_cons_padded {c : Char} (hc : isPlain c = true) (w n : Nat) :
    ∀ d ∈ c :: Text.padded w n, isPlain d = true :=
  List.forall_mem_cons.2 ⟨hc, plain_padded w n⟩

private theorem plain_yearText (year : Int) : ∀ c ∈ yearText year, isPlain c = true := by
  unfold yearText
  split
  · exact plain_padded _ _
  · exact plain_cons_padded (by split <;> decide) _ _

private theorem plain_fractionText (nanos : Nat) : ∀ c ∈ fractionText nanos, isPlain c = true := by
  unfold fractionText
  split
  · intro c hc
    simp at hc
  split
  · exact plain_cons_padded (by decide) _ _
  split
  · exact plain_cons_padded (by decide) _ _
  · exact plain_cons_padded (by decide) _ _

theorem plain_zuluText (t : Instant) : Plain t.zuluText := by
  have hmark : isPlain '-' = true ∧ isPlain ':' = true ∧ isPlain 'T' = true ∧
      isPlain 'Z' = true := by decide
  unfold Plain zuluText write dateText timeText
  simp only [String.toList_ofList, List.forall_mem_append, List.forall_mem_cons, hmark, true_and,
    List.not_mem_nil, false_implies, implies_true, and_true]
  exact ⟨⟨⟨plain_yearText _, plain_padded _ _⟩, plain_padded _ _⟩,
    ⟨⟨plain_padded _ _, plain_padded _ _⟩, plain_padded _ _⟩, plain_fractionText _⟩

end Instant

/-! ## Records -/

namespace Record

open Json Json.Reader

/-- The bytes of an instant that may be missing. -/
def optionBytes : Option Instant → Bytes
  | none => [0x6E, 0x75, 0x6C, 0x6C]
  | some t => quotedBytes t.zuluText

private theorem flatMap_quote {s : String} (h : Plain s) :
    (quote s).flatMap String.utf8EncodeChar = quotedBytes s := by
  rw [show quote s = renderChars (.text s) by rw [renderChars], renderChars_text h]
  simp only [List.flatMap_cons, List.flatMap_append, ← Bytes.ofText_eq_flatMap]
  rfl

private theorem plain_names :
    Plain "id" ∧ Plain "userId" ∧ Plain "createdAt" ∧ Plain "dismissedAt" := by decide +kernel

/-- The members of a record and the brace behind them. -/
def memberBytes (item : Item) : Bytes :=
  quotedBytes "id" ++ 0x3A :: (quotedBytes item.id ++
    0x2C :: (quotedBytes "userId" ++ 0x3A :: (quotedBytes item.user ++
      0x2C :: (quotedBytes "createdAt" ++ 0x3A :: (quotedBytes item.created.zuluText ++
        0x2C :: (quotedBytes "dismissedAt" ++ 0x3A :: (optionBytes item.dismissed ++ [0x7D])))))))

theorem encode_eq (item : Item) : encode item = 0x7B :: memberBytes item := by
  obtain ⟨hn, hu, hc, hd⟩ := plain_names
  have hdismissed :
      (renderChars (Json.ofOption (item.dismissed.map fun t => .text t.zuluText))).flatMap
        String.utf8EncodeChar = optionBytes item.dismissed := by
    cases item.dismissed with
    | none => rfl
    | some t => exact flatMap_quote t.plain_zuluText
  have hmark : String.utf8EncodeChar '{' = [0x7B] ∧ String.utf8EncodeChar '}' = [0x7D] ∧
      String.utf8EncodeChar ':' = [0x3A] ∧ String.utf8EncodeChar ',' = [0x2C] := by decide
  unfold encode Json.render Item.json memberBytes
  rw [Bytes.ofText_ofList]
  simp only [renderChars, renderMembers, List.flatMap_cons, List.flatMap_append, List.flatMap_nil,
    flatMap_quote hn, flatMap_quote hu, flatMap_quote hc, flatMap_quote hd,
    flatMap_quote (Identity.plain_of_valid item.id_valid),
    flatMap_quote (Identity.plain_of_valid item.user_valid),
    flatMap_quote item.created.plain_zuluText, hdismissed, hmark, List.append_assoc,
    List.cons_append, List.nil_append]

section Members

variable {d : Draft} {rest : Bytes} {s : String} {t : Instant}

private theorem colon_cons : colon (0x3A :: rest) = .ok rest := by
  rw [colon, skipBlanks_cons (by decide)]
  rfl

theorem instant_quotedBytes : instant (quotedBytes t.zuluText ++ rest) = .ok (t, rest) := by
  simp only [instant, bind, Except.bind, text_quotedBytes t.plain_zuluText,
    Instant.ofRecordText?_zuluText]

theorem optional_optionBytes (dismissed : Option Instant) :
    Reader.optional instant (optionBytes dismissed ++ rest) = .ok (dismissed, rest) := by
  unfold Reader.optional
  cases dismissed with
  | none => simp [optionBytes, skipBlanks_cons (show isBlankByte 0x6E = false by decide), word,
      Except.map]
  | some t =>
    have hskip : skipBlanks (quotedBytes t.zuluText ++ rest) = quotedBytes t.zuluText ++ rest :=
      skipBlanks_cons (by decide) _
    simp only [optionBytes, hskip]
    split
    · rename_i heq
      rw [quotedBytes_append, List.cons.injEq] at heq
      exact absurd heq.1 (by decide)
    · rw [instant_quotedBytes]
      rfl

theorem member_id (h : d.id = none) (hs : Plain s) :
    member d "id" (0x3A :: (quotedBytes s ++ rest)) = .ok ({ d with id := some s }, rest) := by
  simp only [member, once, h, colon_cons, bind, Except.bind, text_quotedBytes hs]
  rfl

theorem member_user (h : d.user = none) (hs : Plain s) :
    member d "userId" (0x3A :: (quotedBytes s ++ rest)) =
      .ok ({ d with user := some s }, rest) := by
  simp only [member, once, h, colon_cons, bind, Except.bind, text_quotedBytes hs]
  rfl

theorem member_created (h : d.created = none) :
    member d "createdAt" (0x3A :: (quotedBytes t.zuluText ++ rest)) =
      .ok ({ d with created := some t }, rest) := by
  simp only [member, once, h, colon_cons, bind, Except.bind, instant_quotedBytes]
  rfl

theorem member_dismissed (h : d.dismissed = none) (dismissed : Option Instant) :
    member d "dismissedAt" (0x3A :: (optionBytes dismissed ++ rest)) =
      .ok ({ d with dismissed := some dismissed }, rest) := by
  simp only [member, once, h, colon_cons, bind, Except.bind, optional_optionBytes]
  rfl

end Members

/-- The four members of a record are read in the order in which they are written. -/
theorem members_memberBytes (item : Item) {fuel : Nat} (hf : 4 ≤ fuel) :
    members false member fuel {} (memberBytes item) =
      .ok (⟨some item.id, some item.user, some item.created, some item.dismissed⟩, []) := by
  obtain ⟨hid, huser, hcreated, hdismissed⟩ := plain_names
  obtain ⟨k, rfl⟩ : ∃ k, fuel = k + 4 := ⟨fuel - 4, by omega⟩
  unfold memberBytes
  rw [members_quotedBytes hid (member_id rfl (Identity.plain_of_valid item.id_valid)),
    moreMembers_quotedBytes huser (member_user rfl (Identity.plain_of_valid item.user_valid)),
    moreMembers_quotedBytes hcreated (member_created rfl),
    moreMembers_quotedBytes hdismissed (member_dismissed rfl _), moreMembers_close]

theorem ofBytes_encode (item : Item) :
    ofBytes (encode item) = .ok ⟨item.id, item.user, item.created, item.dismissed⟩ := by
  have hlength : 4 ≤ (memberBytes item).length + 1 := by
    unfold memberBytes quotedBytes
    simp only [List.length_append, List.length_cons]
    omega
  unfold ofBytes read
  rw [encode_eq, skipBlanks_cons (by decide)]
  simp only [members_memberBytes item hlength, bind, Except.bind]
  rfl

/-- **Records are read back.** -/
theorem decode_encode (item : Item) : decode (encode item) = .ok item := by
  unfold decode
  rw [ofBytes_encode]
  exact Item.create_self item

/-- A record is that of one item only. -/
theorem encode_injective : Function.Injective encode := by
  intro item other heq
  have hdec := decode_encode item
  rw [heq, decode_encode] at hdec
  exact (Except.ok.inj hdec).symm

end Record

/-! ## Rows -/

namespace Table

theorem readCell_offsetText (column : String) (t : Instant) :
    readCell column t.offsetText = .ok t := by
  unfold readCell
  rw [Instant.ofCellText?_offsetText]

/-- **Rows are read back.** -/
theorem itemOf_rowOf (item : Item) : itemOf (keyOf item) (rowOf item) = .ok item := by
  have hdismissed : (item.dismissed.map Instant.offsetText).mapM (readCell "dismissed_at") =
      .ok item.dismissed := by
    cases item.dismissed with
    | none => rfl
    | some t => simp only [Option.map_some, Option.mapM_some, readCell_offsetText]; rfl
  unfold itemOf rowOf keyOf
  simp only [readCell_offsetText, hdismissed, bind, Except.bind]
  exact Item.create_self item

end Table

end Dismissal
