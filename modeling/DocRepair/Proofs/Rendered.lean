import DocRepair.Proofs.Reading
import DocRepair.Proofs.Stamped
import DocRepair.Proofs.Tracking
/-!
# `DocRepair.Proofs.Rendered` — a rendered value is read back

The exchange format has no names of its own for the kinds that it knows, and one name that starts with
a dollar sign for identifiers and instants. So a value comes back as it was if none of its own names
starts with a dollar sign, and if none of its texts changes on the way.

## Contents

* `Plain` — values of the kinds that the format keeps;
* `interpret_plain` — an object without special names stands for itself;
* `reads_encoded` — the text of a value is read as that value;
* `parse_render` — a rendered value is read back.
-/

namespace DocRepair.ExtendedJson

open DocRepair.Json DocRepair.Double

/-- Values of the kinds that the exchange format keeps: instants without an offset from 1970 on, in
    whole milliseconds, and objects without a name that starts with a dollar sign. In no text a first
    half of a pair has a second half right behind it. -/
inductive Plain : Value → Prop
  | null : Plain .null
  | bool (b : Bool) : Plain (.bool b)
  | int (n : Int) : Plain (.int n)
  | float {negative : Bool} {units : Nat} (format : InFormat units) :
      Plain (.float (.finite negative units))
  | text {s : String} (apart : Apart s.toList) : Plain (.text s)
  | ident (id : ObjectId) : Plain (.ident id)
  | instant {micros : Int} (since : 0 ≤ micros) (whole : micros % 1000 = 0)
      (valid : (Instant.civil ⟨micros, none⟩).isValid = true) : Plain (.instant ⟨micros, none⟩)
  | array {items : List Value} (all : ∀ v ∈ items, Plain v) : Plain (.array items)
  | object {fields : Fields} (distinct : Fields.Distinct fields)
      (names : ∀ f ∈ fields, Apart f.1.toList ∧ f.1.toList.head? ≠ some '$')
      (all : ∀ f ∈ fields, Plain f.2) : Plain (.object fields)

/-! ## Objects -/

theorem readers_special : ∀ r ∈ Tags.readers, r.1.toList.head? = some '$' := by
  have all : Tags.readers.all (fun r => r.1.toList.head? == some '$') = true := by decide
  intro r hr
  exact beq_iff_eq.1 (List.all_eq_true.1 all r hr)

/-- An object without special names stands for itself. -/
theorem interpret_plain {fields : Fields} (plain : ∀ f ∈ fields, f.1.toList.head? ≠ some '$')
    (s : Supply) : interpret fields s = .ok (.object fields) s := by
  unfold interpret
  rw [List.findSome?_eq_none_iff.2]
  · rfl
  · rintro ⟨name, v⟩ among
    have unknown : Tags.readers.lookup name = none := by
      rw [List.lookup_eq_none_iff]
      intro r hr
      rw [bne_iff_ne]
      rintro rfl
      exact plain _ among (readers_special r hr)
    show (Tags.readers.lookup name).map _ = none
    rw [unknown]
    rfl

/-! ## Encoded values -/

theorem encodeItems_ok {items : List Value} {trees : List Json} :
    encodeItems items = .ok trees ↔ List.Forall₂ (fun v t => encode v = .ok t) items trees := by
  induction items generalizing trees with
  | nil =>
    rw [encodeItems, List.forall₂_nil_left_iff]
    constructor
    · rintro ⟨⟩
      rfl
    · rintro rfl
      rfl
  | cons v rest ih =>
    rw [encodeItems, bind_eq_ok, List.forall₂_cons_left_iff]
    constructor
    · rintro ⟨t, first, run⟩
      obtain ⟨ts, others, made⟩ := bind_eq_ok.1 run
      cases made
      exact ⟨t, ts, first, ih.1 others, rfl⟩
    · rintro ⟨t, ts, first, others, rfl⟩
      exact ⟨t, first, bind_eq_ok.2 ⟨ts, ih.2 others, rfl⟩⟩

theorem encodeFields_ok {fields : Fields} {members : List (String × Json)} :
    encodeFields fields = .ok members ↔
      List.Forall₂ (fun f m => f.1 = m.1 ∧ encode f.2 = .ok m.2) fields members := by
  induction fields generalizing members with
  | nil =>
    rw [encodeFields, List.forall₂_nil_left_iff]
    constructor
    · rintro ⟨⟩
      rfl
    · rintro rfl
      rfl
  | cons f rest ih =>
    obtain ⟨name, v⟩ := f
    rw [encodeFields, bind_eq_ok, List.forall₂_cons_left_iff]
    constructor
    · rintro ⟨t, first, run⟩
      obtain ⟨ts, others, made⟩ := bind_eq_ok.1 run
      cases made
      exact ⟨(name, t), ts, ⟨rfl, first⟩, ih.1 others, rfl⟩
    · rintro ⟨⟨_, t⟩, ts, ⟨rfl, first⟩, others, rfl⟩
      exact ⟨t, first, bind_eq_ok.2 ⟨ts, ih.2 others, rfl⟩⟩

theorem indentedItems_eq (depth : Nat) (trees : List Json) :
    indentedItems depth trees = trees.map (indentedAt depth) := by
  induction trees with
  | nil => rfl
  | cons t rest ih => rw [indentedItems, ih, List.map_cons]

theorem indentedMembers_eq (depth : Nat) (members : List (String × Json)) :
    indentedMembers depth members =
      members.map fun m => quoted m.1 ++ ": " ++ indentedAt depth m.2 := by
  induction members with
  | nil => rfl
  | cons m rest ih => rw [indentedMembers, ih, List.map_cons]

theorem reads_member {depth : Nat} {name : String} {t : Json} {v : Value} (apart : Apart name.toList)
    (reads : Reads values (indentedAt depth t).toList v) :
    ReadsMember values (quoted name ++ ": " ++ indentedAt depth t).toList (name, v) := by
  refine ⟨(indentedAt depth t).toList, ?_, apart, reads⟩
  rw [String.toList_append, String.toList_append, List.append_assoc]
  rfl

/-- An object with one name that says how to read its text. -/
theorem reads_tagged {name text : String} {v : Value} (depth : Nat) (apartName : Apart name.toList)
    (apart : Apart text.toList) (made : ∀ s, interpret [(name, .text text)] s = .ok v s) :
    Reads values (indentedAt depth (tagged name (.text text))).toList v := by
  have inner : Reads values (indentedAt (depth + 1) (.text text)).toList (.text text) :=
    reads_text apart
  have line : List.Forall₂ (ReadsMember values)
      ((indentedMembers (depth + 1) [(name, .text text)]).map String.toList)
      [(name, Value.text text)] := by
    rw [indentedMembers_eq]
    exact List.Forall₂.cons (reads_member apartName inner) List.Forall₂.nil
  exact reads_object line (List.nodup_singleton _) made

/-! ## Identifiers and instants -/

/-- Identifiers are written in digits. -/
theorem ident_ascii (id : ObjectId) : ∀ c ∈ id.text.toList, c.toNat < 128 := by
  have digit (n : Nat) (small : n < 16) : (Text.Hex.digit n).toNat < 128 := by
    have table : ∀ m : Fin 16, (Text.Hex.digit m.val).toNat < 128 := by decide
    exact table ⟨n, small⟩
  have digits (bytes : List UInt8) : ∀ c ∈ Text.Hex.digits bytes, c.toNat < 128 := by
    induction bytes with
    | nil => exact fun c hc => absurd hc List.not_mem_nil
    | cons b rest ih =>
      have bound := b.toNat_lt
      rw [Text.Hex.digits, List.forall_mem_cons, List.forall_mem_cons]
      exact ⟨digit _ (by omega), digit _ (by omega), ih⟩
  unfold ObjectId.text Text.Hex.encode
  rw [String.toList_ofList]
  exact digits id.bytes

/-- ASCII text has no halves in it. -/
theorem apart_ascii {s : String} (ascii : ∀ c ∈ s.toList, c.toNat < 128) : Apart s.toList :=
  apart_of_small fun c hc => (ascii c hc).trans (by decide)

theorem interpret_ident (id : ObjectId) (s : Supply) :
    interpret [("$oid", .text id.text)] s = .ok (.ident id) s := by
  have stands : Identity.ofValue? (.text id.text) = some id := ObjectId.ofText?_text id
  show Tags.identifier [("$oid", .text id.text)] (.text id.text) s = _
  unfold Tags.identifier
  rw [stands]
  rfl

theorem interpret_instant {micros : Int} (whole : micros % 1000 = 0)
    (valid : (Instant.civil ⟨micros, none⟩).isValid = true) (s : Supply) :
    interpret [("$date", .text (Stamp.stampText ⟨micros, none⟩))] s =
      .ok (.instant ⟨micros, none⟩) s := by
  have stands := Stamp.ofText_shown valid (Instant.civil_whole whole)
    (Value.text (Stamp.stampText ⟨micros, none⟩)).literal
  show Draw.lift (Tags.instant [("$date", .text (Stamp.stampText ⟨micros, none⟩))]
    (.text (Stamp.stampText ⟨micros, none⟩))) s = _
  have read : Tags.instant [("$date", .text (Stamp.stampText ⟨micros, none⟩))]
      (.text (Stamp.stampText ⟨micros, none⟩)) = .ok (.instant ⟨micros, none⟩) :=
    bind_eq_ok.2 ⟨(), rfl, bind_eq_ok.2 ⟨_, stands, rfl⟩⟩
  rw [read]
  rfl

theorem encodeInstant_naive {micros : Int} (since : 0 ≤ micros) :
    encodeInstant ⟨micros, none⟩ =
      .ok (tagged "$date" (.text (Stamp.stampText ⟨micros, none⟩))) := by
  have universal : Instant.universal ⟨micros, none⟩ = micros := by
    unfold Instant.universal
    rw [Option.getD_none, Int.zero_mul, Int.sub_zero]
  unfold encodeInstant
  rw [universal, if_pos since]
  rfl

/-- **The text of a value is read as that value.** -/
theorem reads_encoded {v : Value} (plain : Plain v) :
    ∀ {t : Json} (depth : Nat), encode v = .ok t → Reads values (indentedAt depth t).toList v := by
  induction plain with
  | null =>
    rintro t depth ⟨⟩
    exact reads_null
  | bool b =>
    rintro t depth ⟨⟩
    exact reads_bool b
  | int n =>
    intro t depth encodes
    rw [encode] at encodes
    unfold encodeInteger at encodes
    split at encodes
    · cases encodes
    · cases encodes
      exact reads_int (by omega)
  | @float negative units format =>
    rintro t depth ⟨⟩
    exact reads_float format
  | @text s apart =>
    rintro t depth ⟨⟩
    exact reads_text apart
  | ident id =>
    rintro t depth ⟨⟩
    exact reads_tagged depth (by decide) (apart_ascii (ident_ascii id)) (interpret_ident id)
  | @instant micros since whole valid =>
    intro t depth encodes
    rw [encode, encodeInstant_naive since] at encodes
    cases encodes
    exact reads_tagged depth (by decide) (apart_ascii (Stamp.stampText_ascii _))
      (interpret_instant whole valid)
  | @array items all ih =>
    intro t depth encodes
    obtain ⟨trees, encoded, made⟩ := bind_eq_ok.1 encodes
    cases made
    have lines : List.Forall₂ (Reads values)
        ((indentedItems (depth + 1) trees).map String.toList) items := by
      have both := (List.forall₂_and_left _ _).2 ⟨ih, encodeItems_ok.1 encoded⟩
      rw [indentedItems_eq, List.map_map, List.forall₂_map_left_iff]
      exact (both.imp fun v t each => each.1 (depth + 1) each.2).flip
    exact reads_array lines
  | @object fields distinct names all ih =>
    intro t depth encodes
    obtain ⟨members, encoded, made⟩ := bind_eq_ok.1 encodes
    cases made
    have lines : List.Forall₂ (ReadsMember values)
        ((indentedMembers (depth + 1) members).map String.toList) fields := by
      have both := (List.forall₂_and_left _ _).2 ⟨names, (List.forall₂_and_left _ _).2
        ⟨ih, encodeFields_ok.1 encoded⟩⟩
      rw [indentedMembers_eq, List.map_map, List.forall₂_map_left_iff]
      refine (both.imp fun f m each => ?_).flip
      obtain ⟨name, v⟩ := f
      obtain ⟨k, t⟩ := m
      obtain ⟨⟨apart, _⟩, reads, rfl, encodes⟩ := each
      exact reads_member apart (reads (depth + 1) encodes)
    exact reads_object lines distinct (interpret_plain fun f hf => (names f hf).2)

/-- **A rendered value is read back**, without drawing on the supply. -/
theorem parse_render {v : Value} {text : String} (plain : Plain v) (renders : render v = .ok text)
    (s : Supply) : parse (text ++ "\n") s = .ok v s := by
  obtain ⟨tree, encodes, made⟩ := bind_eq_ok.1 renders
  cases made
  exact build_of_reads (reads_encoded plain 0 encodes) s

end DocRepair.ExtendedJson
