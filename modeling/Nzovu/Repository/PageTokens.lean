import Mathlib.Logic.Equiv.List
import Nzovu.Foundation.Base64Url
import Nzovu.Repository.Paging
import Nzovu.Repository.QueueValidation

/-!
# Page Tokens as Texts

Translation of the token side of `internal/pagination`. A cursor is marshalled to JSON and written
in raw URL base64; every decoder checks that the cursor it reads is of its own kind and belongs to
the scope and the filter of the request. `encoding/json` is a parameter (`TokenJson`), of which a
round trip on 64-bit numbers is assumed.

- Section 1: cursors as texts.
- Section 2: the three kinds of tokens.
- Section 3: a token is bound to its request.
- Section 4: the filter of a peek request.
- Section 5: tokens.
-/

namespace Nzovu.Repository

open Nzovu.Foundation

/-! ## Section 1: Cursors as texts -/

/-- `json.Marshal` and `json.Unmarshal` on `pagination.cursor`. -/
structure TokenJson where
  marshal : PageToken → Except String (List UInt8)
  unmarshal : List UInt8 → Except String PageToken

/-- The numbers of the cursor are `int64` values. -/
structure PageToken.FitsInt64 (token : PageToken) : Prop where
  offset : Foundation.FitsInt64 token.offset
  priority : ∀ priority, token.priority = some priority → Foundation.FitsInt64 priority
  rowID : ∀ rowID, token.rowID = some rowID → Foundation.FitsInt64 rowID

theorem fitsInt64_zero : Foundation.FitsInt64 0 := by decide

/-- What the tokens rely on: a marshalled cursor is read back, and an empty text is not JSON. -/
structure TokenJson.Lawful (json : TokenJson) : Prop where
  roundTrip : ∀ token : PageToken, token.FitsInt64 →
    ∃ data, json.marshal token = .ok data ∧ json.unmarshal data = .ok token
  unmarshal_nil : ∃ err, json.unmarshal [] = .error err

/-- `decode`. -/
def decodeCursor (json : TokenJson) (token : String) : Except String PageToken :=
  match Base64Url.decode token.toList with
  | none => .error "page token is malformed"
  | some data =>
    match json.unmarshal data with
    | .error _ => .error "page token is malformed"
    | .ok value => .ok value

/-- `encode`. -/
def encodeCursor (json : TokenJson) (value : PageToken) : Except String String :=
  match json.marshal value with
  | .error err => .error ("marshal page token: " ++ err)
  | .ok data => .ok (String.ofList (Base64Url.encode data))

/-- The start of every decoder: the empty text is no token. -/
def readCursor (json : TokenJson) (token : String) : Except String (Option PageToken) :=
  if token = "" then .ok none
  else
    match decodeCursor json token with
    | .error err => .error err
    | .ok value => .ok (some value)

/-- **Round trip**: the text of a cursor is a token, and is read as the cursor. -/
theorem readCursor_encodeCursor {json : TokenJson} (hjson : json.Lawful) {value : PageToken}
    (hfits : value.FitsInt64) :
    ∃ token, encodeCursor json value = .ok token ∧ readCursor json token = .ok (some value) := by
  -- the bytes survive base64, and JSON reads them back
  obtain ⟨data, hmarshal, hunmarshal⟩ := hjson.roundTrip value hfits
  refine ⟨String.ofList (Base64Url.encode data), by simp only [encodeCursor, hmarshal], ?_⟩
  have hdecode : Base64Url.decode (String.ofList (Base64Url.encode data)).toList = some data := by
    rw [String.toList_ofList, Base64Url.decode_encode]
  have hne : String.ofList (Base64Url.encode data) ≠ "" := by
    -- an empty text would be the text of no bytes, which are not JSON
    intro hempty
    rw [hempty] at hdecode
    cases hdecode
    obtain ⟨err, herr⟩ := hjson.unmarshal_nil
    cases herr.symm.trans hunmarshal
  simp only [readCursor, if_neg hne, decodeCursor, hdecode, hunmarshal]

/-! ## Section 2: The kinds of tokens -/

/-- `pagination.Decode`: the offset `0` without a token. -/
def decodeOffset (token : Option PageToken) (scope filter : String) : Except String Int :=
  match token with
  | none => .ok 0
  | some value =>
    -- the fields of the other kinds are unset in a cursor of this one
    if value.version ≠ 1 ∨ value.scope ≠ scope ∨ value.filter ≠ filter ∨ value.offset < 0 ∨
        value.position ≠ "" ∨ value.priority ≠ none ∨ value.rowID ≠ none then
      .error "page token does not match this request"
    else .ok value.offset

/-- `pagination.Encode`. -/
def encodeOffset (scope filter : String) (offset : Int) : Except String PageToken :=
  if offset < 0 then .error "page token offset must be non-negative"
  else .ok { version := 1, scope := scope, filter := filter, offset := offset }

/-- Which of the three pairs of functions is used. -/
inductive TokenKind where
  | peek
  | position
  | offset
deriving DecidableEq, Repr

/-- What a token stands for. -/
inductive PagePosition where
  | peek (priority rowID : Int)
  | position (text : String)
  | offset (n : Int)
deriving DecidableEq, Repr

def PagePosition.kind : PagePosition → TokenKind
  | .peek _ _ => .peek
  | .position _ => .position
  | .offset _ => .offset

/-- The cursor of a position: `EncodePeek`, `EncodePosition` or `Encode`. -/
def PagePosition.cursor (scope filter : String) : PagePosition → Except String PageToken
  | .peek priority rowID => encodePeek scope filter priority rowID
  | .position text => encodePosition scope filter text
  | .offset n => encodeOffset scope filter n

/-- `EncodePeek`, `EncodePosition` or `Encode`, down to the text. -/
def encodeToken (json : TokenJson) (scope filter : String) (position : PagePosition) :
    Except String String :=
  match position.cursor scope filter with
  | .error err => .error err
  | .ok value => encodeCursor json value

/-- The checks of `DecodePeek`, `DecodePosition` or `Decode`. -/
def TokenKind.check (kind : TokenKind) (token : Option PageToken) (scope filter : String) :
    Except String PagePosition :=
  match kind with
  | .peek => (decodePeek token scope filter).map fun cursor => .peek cursor.1 cursor.2
  | .position => (decodePosition token scope filter).map .position
  | .offset => (decodeOffset token scope filter).map .offset

/-- `DecodePeek`, `DecodePosition` or `Decode`, from the text. -/
def decodeToken (json : TokenJson) (kind : TokenKind) (token scope filter : String) :
    Except String PagePosition :=
  match readCursor json token with
  | .error err => .error err
  | .ok value => kind.check value scope filter

/-- What the encoders accept, as the numbers the callers can pass. -/
def PagePosition.Encodable : PagePosition → Prop
  | .peek priority rowID => FitsInt64 priority ∧ FitsInt64 rowID ∧ 0 < rowID
  | .position text => text ≠ ""
  | .offset n => FitsInt64 n ∧ 0 ≤ n

/-! ## Section 3: A token is bound to its request -/

section Bound

variable {scope filter : String}

/-- An accepted position has a cursor that says all about it. -/
theorem PagePosition.cursor_eq_ok {position : PagePosition} (h : position.Encodable) :
    ∃ value, position.cursor scope filter = .ok value ∧ value.FitsInt64 ∧ value.scope = scope ∧
      value.filter = filter ∧ position.kind.check (some value) scope filter = .ok position := by
  cases position with
  | peek priority rowID =>
    obtain ⟨hpriority, hrowID, hpos⟩ := h
    refine ⟨_, if_neg (Int.not_le.mpr hpos), ⟨fitsInt64_zero, ?_, ?_⟩, rfl, rfl, ?_⟩
    · rintro _ ⟨⟩
      exact hpriority
    · rintro _ ⟨⟩
      exact hrowID
    · have hrow : ¬ rowID ≤ 0 := Int.not_le.mpr hpos
      simp [PagePosition.kind, TokenKind.check, decodePeek, Except.map, hrow]
  | position text =>
    have hne : text ≠ "" := h
    refine ⟨_, if_neg hne, ⟨fitsInt64_zero, ?_, ?_⟩, rfl, rfl, ?_⟩
    · rintro _ ⟨⟩
    · rintro _ ⟨⟩
    · simp [PagePosition.kind, TokenKind.check, decodePosition, Except.map, hne]
  | offset n =>
    obtain ⟨hfits, hnonneg⟩ := h
    refine ⟨_, if_neg (Int.not_lt.mpr hnonneg), ⟨hfits, ?_, ?_⟩, rfl, rfl, ?_⟩
    · rintro _ ⟨⟩
    · rintro _ ⟨⟩
    · have hoffset : ¬ n < 0 := Int.not_lt.mpr hnonneg
      simp [PagePosition.kind, TokenKind.check, decodeOffset, Except.map, hoffset]

/-- A decoder that returns a position was given the scope and the filter of the cursor. -/
theorem scope_eq_of_check {kind : TokenKind} {value : PageToken} {position : PagePosition}
    (h : kind.check (some value) scope filter = .ok position) :
    value.scope = scope ∧ value.filter = filter := by
  cases kind with
  | peek =>
    simp only [TokenKind.check, decodePeek] at h
    split at h
    · split at h
      · cases h
      · rename_i hmatch
        simp only [not_or, not_not] at hmatch
        exact ⟨hmatch.2.1, hmatch.2.2.1⟩
    · cases h
  | position =>
    simp only [TokenKind.check, decodePosition] at h
    split at h
    · cases h
    · rename_i hmatch
      simp only [not_or, not_not] at hmatch
      exact ⟨hmatch.2.1, hmatch.2.2.1⟩
  | offset =>
    simp only [TokenKind.check, decodeOffset] at h
    split at h
    · cases h
    · rename_i hmatch
      simp only [not_or, not_not] at hmatch
      exact ⟨hmatch.2.1, hmatch.2.2.1⟩

/-- The kind of a cursor, as the decoders tell it: peek cursors have version 2, positions are not
empty, and offsets have neither a position nor a row. -/
theorem kind_eq_of_check {kind : TokenKind} {position decoded : PagePosition} {value : PageToken}
    {scope' filter' : String} (hencodable : position.Encodable)
    (hcursor : position.cursor scope filter = .ok value)
    (hcheck : kind.check (some value) scope' filter' = .ok decoded) : kind = position.kind := by
  cases position with
  | peek priority rowID =>
    simp only [PagePosition.cursor, encodePeek, if_neg (Int.not_le.mpr hencodable.2.2)] at hcursor
    cases hcursor
    cases kind with
    | peek => rfl
    -- the version is another one
    | position => simp [TokenKind.check, decodePosition, Except.map] at hcheck
    | offset => simp [TokenKind.check, decodeOffset, Except.map] at hcheck
  | position text =>
    have hne : text ≠ "" := hencodable
    simp only [PagePosition.cursor, encodePosition, if_neg hne] at hcursor
    cases hcursor
    cases kind with
    -- neither a priority nor a row
    | peek => simp [TokenKind.check, decodePeek, Except.map] at hcheck
    | position => rfl
    | offset => simp [TokenKind.check, decodeOffset, Except.map, hne] at hcheck
  | offset n =>
    simp only [PagePosition.cursor, encodeOffset, if_neg (Int.not_lt.mpr hencodable.2)] at hcursor
    cases hcursor
    cases kind with
    | peek => simp [TokenKind.check, decodePeek, Except.map] at hcheck
    | position => simp [TokenKind.check, decodePosition, Except.map] at hcheck
    | offset => rfl

/-- The text of a token, and what the decoders make of it. -/
theorem encodeToken_eq_ok {json : TokenJson} (hjson : json.Lawful) {position : PagePosition}
    (h : position.Encodable) :
    ∃ value token, position.cursor scope filter = .ok value ∧
      encodeToken json scope filter position = .ok token ∧
      ∀ kind scope' filter',
        decodeToken json kind token scope' filter' = kind.check (some value) scope' filter' := by
  obtain ⟨value, hcursor, hfits, -⟩ := @PagePosition.cursor_eq_ok scope filter position h
  obtain ⟨token, hencode, hread⟩ := readCursor_encodeCursor hjson hfits
  refine ⟨value, token, hcursor, ?_, fun kind scope' filter' => ?_⟩
  · simp only [encodeToken, hcursor, hencode]
  · simp only [decodeToken, hread]

end Bound

/-! ## Section 4: The filter of a peek request -/

section PeekFilter

/-- The characters of a filter. -/
theorem toList_peekFilter (queueName : String) (range : PriorityRange) :
    (peekFilter queueName (some range)).toList =
      queueName.toList ++ ':' :: (formatInt range.min ++ ':' :: formatInt range.max) := by
  simp [peekFilter, toList_repr]

/-- The name of a queue has no colon. -/
theorem colon_not_mem_of_validateQueueName {name : String} (h : validateQueueName name = .ok ()) :
    ':' ∉ name.toList := by
  simp only [validateQueueName] at h
  split at h
  · cases h
  · split at h
    · cases h
    · split at h
      · cases h
      · rename_i hpattern
        unfold matchesQueueNamePattern at hpattern
        intro hmem
        cases hname : name.toList with
        | nil => simp [hname] at hmem
        | cons first rest =>
          rw [hname] at hpattern hmem
          simp only [Bool.not_eq_false, Bool.and_eq_true] at hpattern
          -- neither the first character nor any other can be a colon
          rcases List.mem_cons.mp hmem with rfl | hrest
          · exact absurd hpattern.1 (by decide)
          · exact absurd (List.all_eq_true.mp hpattern.2 _ hrest) (by decide)

/-- **Filters**: two peek requests on accepted queues have the same filter only when they ask for
the same. -/
theorem peekFilter_injective {name name' : String} {range range' : Option PriorityRange}
    (hname : validateQueueName name = .ok ()) (hname' : validateQueueName name' = .ok ())
    (h : peekFilter name range = peekFilter name' range') : name = name' ∧ range = range' := by
  have hcolon := colon_not_mem_of_validateQueueName hname
  have hcolon' := colon_not_mem_of_validateQueueName hname'
  have hlist := congrArg String.toList h
  -- a filter has a colon exactly when the request has a range
  cases range with
  | none =>
    cases range' with
    | none => exact ⟨h, rfl⟩
    | some r' =>
      rw [toList_peekFilter] at hlist
      exact absurd (hlist ▸ List.mem_append_right _ List.mem_cons_self : ':' ∈ name.toList) hcolon
  | some r =>
    cases range' with
    | none =>
      rw [toList_peekFilter] at hlist
      exact absurd (hlist ▸ List.mem_append_right _ List.mem_cons_self : ':' ∈ name'.toList)
        hcolon'
    | some r' =>
      rw [toList_peekFilter, toList_peekFilter] at hlist
      -- the name ends at the first colon, the minimum at the next one
      obtain ⟨hnames, hranges⟩ := field_append_inj hcolon hcolon' hlist
      have hmin (i : Int) : ':' ∉ formatInt i :=
        not_mem_formatInt (by decide) (by decide) i
      obtain ⟨hmins, hmaxs⟩ := field_append_inj (hmin _) (hmin _) hranges
      refine ⟨String.toList_injective hnames, ?_⟩
      cases r
      cases r'
      cases formatInt_injective hmins
      cases formatInt_injective hmaxs
      rfl

end PeekFilter

/-! ## Section 5: Tokens -/

/-- What a token promises: its decoder returns the position it was made from, every other request is
refused, and peek requests that ask for something else are other requests. -/
structure BoundTokens (json : TokenJson) : Prop where
  decoded : ∀ scope filter (position : PagePosition), position.Encodable →
    ∃ token, encodeToken json scope filter position = .ok token ∧
      decodeToken json position.kind token scope filter = .ok position
  refused : ∀ scope filter (position : PagePosition) token, position.Encodable →
    encodeToken json scope filter position = .ok token →
      ∀ kind scope' filter', (kind ≠ position.kind ∨ scope' ≠ scope ∨ filter' ≠ filter) →
        ∃ err, decodeToken json kind token scope' filter' = .error err
  filters : ∀ name name' range range', validateQueueName name = .ok () →
    validateQueueName name' = .ok () → peekFilter name range = peekFilter name' range' →
      name = name' ∧ range = range'
  peeks : ∀ name name' range range' (position : PagePosition) token, position.Encodable →
    validateQueueName name = .ok () → validateQueueName name' = .ok () →
      encodeToken json "peek" (peekFilter name range) position = .ok token →
        (name' ≠ name ∨ range' ≠ range) → ∀ kind,
          ∃ err, decodeToken json kind token "peek" (peekFilter name' range') = .error err

section Tokens

variable {json : TokenJson}

/-- A request of another kind, scope or filter refuses the token. -/
theorem decodeToken_refuses (hjson : json.Lawful) {scope filter scope' filter' token : String}
    {position : PagePosition} {kind : TokenKind} (h : position.Encodable)
    (htoken : encodeToken json scope filter position = .ok token)
    (hother : kind ≠ position.kind ∨ scope' ≠ scope ∨ filter' ≠ filter) :
    ∃ err, decodeToken json kind token scope' filter' = .error err := by
  obtain ⟨value, token', hcursor, htoken', hdecode⟩ :=
    @encodeToken_eq_ok scope filter json hjson position h
  obtain ⟨value', hcursor', -, hscope, hfilter, -⟩ :=
    @PagePosition.cursor_eq_ok scope filter position h
  cases htoken.symm.trans htoken'
  cases hcursor.symm.trans hcursor'
  rw [hdecode]
  cases hcheck : kind.check (some value) scope' filter' with
  | error err => exact ⟨err, rfl⟩
  | ok decoded =>
    -- an accepted token agrees with the request in all three
    obtain ⟨hscope', hfilter'⟩ := scope_eq_of_check hcheck
    rcases hother with hkind | hne | hne
    · exact absurd (kind_eq_of_check h hcursor hcheck) hkind
    · exact absurd (hscope'.symm.trans hscope) hne
    · exact absurd (hfilter'.symm.trans hfilter) hne

/-- **Page tokens** are bound to what they were made for. -/
theorem boundTokens (hjson : json.Lawful) : BoundTokens json where
  decoded scope filter position h := by
    obtain ⟨value, token, hcursor, htoken, hdecode⟩ :=
      @encodeToken_eq_ok scope filter json hjson position h
    obtain ⟨value', hcursor', -, -, -, hcheck⟩ :=
      @PagePosition.cursor_eq_ok scope filter position h
    cases hcursor.symm.trans hcursor'
    exact ⟨token, htoken, (hdecode _ _ _).trans hcheck⟩
  refused _ _ _ _ h htoken _ _ _ hother := decodeToken_refuses hjson h htoken hother
  filters _ _ _ _ hname hname' h := peekFilter_injective hname hname' h
  peeks name name' range range' position token h hname hname' htoken hother kind := by
    refine decodeToken_refuses hjson h htoken (.inr (.inr fun hfilter => ?_))
    -- the same filter would be the same request
    obtain ⟨hsame, hrange⟩ := peekFilter_injective hname' hname hfilter
    exact hother.elim (fun hne => hne hsame) (fun hne => hne hrange)

end Tokens

/-! ### A concrete marshaller -/

/-- A cursor as numbers. -/
abbrev CursorNumbers : Type :=
  Int × List Nat × List Nat × Int × List Nat × Option Int × Option Int

def characterCodes (text : String) : List Nat := text.toList.map Char.toNat

def textOf (codes : List Nat) : String := String.ofList (codes.map Char.ofNat)

theorem textOf_characterCodes (text : String) : textOf (characterCodes text) = text := by
  simp [textOf, characterCodes, Function.comp_def]

def PageToken.numbers (token : PageToken) : CursorNumbers :=
  (token.version, characterCodes token.scope, characterCodes token.filter, token.offset,
    characterCodes token.position, token.priority, token.rowID)

def CursorNumbers.cursor (numbers : CursorNumbers) : PageToken :=
  let (version, scope, filter, offset, position, priority, rowID) := numbers
  ⟨version, textOf scope, textOf filter, offset, textOf position, priority, rowID⟩

theorem cursor_numbers (token : PageToken) : token.numbers.cursor = token := by
  simp [PageToken.numbers, CursorNumbers.cursor, textOf_characterCodes]

/-- The cursor of the second page of a peek at priorities 1 to 3 of the queue `orders`. -/
def ordersCursor : PageToken :=
  { version := 2, scope := "peek", filter := "orders:1:3", priority := some 2, rowID := some 42 }

/-- Its JSON text, `\x7b"v":2,"s":"peek","f":"orders:1:3","priority":2,"row_id":42\x7d`. -/
def ordersJson : List UInt8 :=
  [123, 34, 118, 34, 58, 50, 44, 34, 115, 34, 58, 34, 112, 101, 101, 107, 34, 44, 34, 102, 34, 58,
    34, 111, 114, 100, 101, 114, 115, 58, 49, 58, 51, 34, 44, 34, 112, 114, 105, 111, 114, 105,
    116, 121, 34, 58, 50, 44, 34, 114, 111, 119, 95, 105, 100, 34, 58, 52, 50, 125]

/-- The true text of `ordersCursor`; any other cursor is a run of zeros, as long as its number in an
enumeration of all cursors says. -/
def sampleJson : TokenJson where
  marshal token :=
    if token = ordersCursor then .ok ordersJson
    else .ok (0 :: List.replicate (Encodable.encode token.numbers) 0)
  unmarshal data :=
    if data = ordersJson then .ok ordersCursor
    else
      match data with
      | [] => .error "unexpected end of JSON input"
      | _ :: zeros =>
        match (Encodable.decode zeros.length : Option CursorNumbers) with
        | some numbers => .ok numbers.cursor
        | none => .error "invalid character"

theorem sampleJson_lawful : sampleJson.Lawful where
  roundTrip token _ := by
    by_cases h : token = ordersCursor
    · subst h
      exact ⟨ordersJson, by simp [sampleJson], by simp [sampleJson]⟩
    · refine ⟨_, if_neg h, ?_⟩
      have hne : 0 :: List.replicate (Encodable.encode token.numbers) 0 ≠ ordersJson := by
        intro heq
        exact absurd (List.cons.inj heq).1 (by decide)
      simp only [sampleJson, if_neg hne, List.length_replicate, Encodable.encodek, cursor_numbers]
  unmarshal_nil := ⟨_, rfl⟩

/-- The token of `ordersCursor`. -/
theorem boundTokens_orders :
    encodeToken sampleJson "peek" (peekFilter "orders" (some ⟨1, 3⟩)) (.peek 2 42) =
        .ok "eyJ2IjoyLCJzIjoicGVlayIsImYiOiJvcmRlcnM6MTozIiwicHJpb3JpdHkiOjIsInJvd19pZCI6NDJ9" ∧
      BoundTokens sampleJson :=
  ⟨by decide +kernel, boundTokens sampleJson_lawful⟩

end Nzovu.Repository
