/-
Every record is read back from its JSON, however that is spelled.

For one type of records there is little to show: its members with their names,
and that reading puts them back together (`Record`). What follows holds for all
of them (`readsBack`).

The kinds and statuses within them go by names. JSON makes its names from the
titles that the values are declared under. These are the names that everything
else goes by, so JSON accepts exactly those (`namesAgree`).
-/
import TeamLedger.Readjustment
import TeamLedger.Proofs.Spellings

set_option autoImplicit false

namespace TeamLedger

/-! ## Types of records -/

instance : Record Agent where
  members a := [.required "user_id" a.userId, .required "kind" a.kind]
  names := ["user_id", "kind"]

instance : Record Team where
  members t := [.required "id" t.id, .required "name" t.name, .required "team_code" t.code,
    .required "team_type" t.kind, .required "created_at" t.createdAt]
  names := ["id", "name", "team_code", "team_type", "created_at"]

instance : Record Invoice where
  members i := [.required "id" i.id, .required "from_team_id" i.fromTeam,
    .required "to_team_id" i.toTeam, .required "invoice_type" i.kind, .required "status" i.status,
    .required "amount" i.amount, .optional "tx_id" i.txId, .optional "order_id" i.orderId,
    .required "has_submission" i.hasSubmission, .required "need_adjustment" i.needAdjustment,
    .optional "hist_id" i.historyId, .required "created" i.created, .optional "paid_at" i.paidAt,
    .optional "accepted_at" i.acceptedAt]
  names := ["id", "from_team_id", "to_team_id", "invoice_type", "status", "amount", "tx_id",
    "order_id", "has_submission", "need_adjustment", "hist_id", "created", "paid_at", "accepted_at"]

instance : Record NewInvoice where
  members i := [.required "from_team_id" i.fromTeam, .required "to_team_id" i.toTeam,
    .required "invoice_type" i.kind, .required "status" i.status, .required "amount" i.amount,
    .optional "tx_id" i.txId, .optional "order_id" i.orderId,
    .required "need_adjustment" i.needAdjustment, .required "created" i.created]
  names := ["from_team_id", "to_team_id", "invoice_type", "status", "amount", "tx_id", "order_id",
    "need_adjustment", "created"]

instance : Record History where
  members h := [.required "id" h.id, .required "amount" h.amount,
    .required "created_by_id" h.createdBy, .required "created_at" h.createdAt]
  names := ["id", "amount", "created_by_id", "created_at"]

instance : Record Submission where
  members s := [.required "id" s.id, .required "created_by_id" s.createdBy,
    .optional "completed_by_id" s.completedBy, .required "status" s.status,
    .required "amount" s.amount, .required "receipt" s.receipt, .required "created_at" s.createdAt]
  names := ["id", "created_by_id", "completed_by_id", "status", "amount", "receipt", "created_at"]

instance : Record Link where
  members l := [.required "invoice_id" l.invoiceId, .required "payment_submission_id" l.submissionId]
  names := ["invoice_id", "payment_submission_id"]

instance : Record LogEntry where
  members e := [.required "id" e.id, .required "payment_submission_id" e.submissionId,
    .required "status" e.status, .required "from_agent" e.fromAgent, .required "by_user_id" e.byUser,
    .required "created_at" e.createdAt]
  names := ["id", "payment_submission_id", "status", "from_agent", "by_user_id", "created_at"]

instance : Record Limit where
  members l := [.required "id" l.id, .required "team_id" l.teamId, .required "limit_type" l.scope,
    .optional "for_team_id" l.forTeam, .required "threshold" l.threshold]
  names := ["id", "team_id", "limit_type", "for_team_id", "threshold"]

instance : Record SetLimit where
  members s := [.required "team_id" s.teamId, .optional "for_team_id" s.forTeam,
    .required "threshold" s.threshold]
  names := ["team_id", "for_team_id", "threshold"]

instance : Record LimitReport where
  members r := [.required "team_id" r.teamId, .required "for_team_id" r.forTeam,
    .required "unpaid_amount" r.unpaidAmount, .required "threshold" r.threshold,
    .optional "limit_type" r.scope, .required "can_create_order" r.canCreateOrder]
  names := ["team_id", "for_team_id", "unpaid_amount", "threshold", "limit_type",
    "can_create_order"]

/-- A report is read back as far as its teams have numbers of 64 bits. -/
theorem readBack_limitReport {r : LimitReport} (hteam : -2 ^ 63 ≤ r.teamId ∧ r.teamId < 2 ^ 63)
    (hfor : -2 ^ 63 ≤ r.forTeam ∧ r.forTeam < 2 ^ 63) : ReadBack r := by
  refine Spelling.readBack ?_
  show ∀ m ∈ Record.members r, m.Fits
  simp only [Record.members, List.forall_mem_cons, Member.Fits]
  exact ⟨hteam, hfor, trivial, trivial, fun _ _ => trivial, trivial, nofun⟩

instance : Record LimitItem where
  members i := [.required "config" i.limit, .optional "team" i.team, .optional "for_team" i.forTeam]
  names := ["config", "team", "for_team"]

instance : Record Debt where
  members d := [.required "to_team_id" d.toTeam, .required "total" d.total,
    .required "unpaid_amount" d.unpaid, .required "submission_amount" d.submitted]
  names := ["to_team_id", "total", "unpaid_amount", "submission_amount"]

instance : Record DeterminedLimit where
  members d := [.required "config" d.limit, .optional "team" d.team, .optional "for_team" d.forTeam,
    .required "invoice_status" d.debt]
  names := ["config", "team", "for_team", "invoice_status"]

instance : Record Readjustment where
  members r := [.required "from_team_id" r.fromTeam, .required "to_team_id" r.toTeam,
    .required "amount" r.amount, .optional "tx_id" r.txId, .optional "order_id" r.orderId]
  names := ["from_team_id", "to_team_id", "amount", "tx_id", "order_id"]

/-! ## Reading back -/

/-- Every value that fits is read back from the text that is written for it, and from every other
spelling of it and its text. -/
def ReadsBack (α : Type) [JsonForm α] [Record α] : Prop :=
  ∀ a : α, Fits a →
    (Json.ofText? (toJson a).toText).bind ofJson? = some a ∧
      ∀ j, Spells a j →
        ofJson? j = some a ∧ (j.Readable → (Json.ofText? j.toText).bind ofJson? = some a)

theorem readsBack (α : Type) [JsonForm α] [Record α] : ReadsBack α := by
  intro a hfits
  refine ⟨(Spelling.readBack hfits).ofText?, fun j hj => ?_⟩
  have read : ofJson? j = some a := Spelling.ofJson?_of_spells hfits hj
  refine ⟨read, fun hreadable => ?_⟩
  rw [Json.ofText?_toText hreadable, Option.bind_some, read]

/-- The names of the values in JSON are made from their titles, and they are exactly the names by
which values are found: for every text, JSON says what the name says. -/
def NamesAgree (α : Type) [Named α] : Prop :=
  (∀ a : α, toJson a = .text ((Titled.lettering α).name (Titled.title a))) ∧
    ∀ s : String, (∀ a : α, toJson a = .text s ↔ Named.ofName? s = some a) ∧
      (Json.ofText? (Json.text s).toText).bind ofJson? = (Named.ofName? s : Option α)

theorem namesAgree (α : Type) [Named α] : NamesAgree α := by
  refine ⟨fun _ => rfl, fun s => ⟨fun a => ?_, ?_⟩⟩
  · show Json.text (Titled.jsonName a) = .text s ↔ _
    rw [Named.ofName?_eq_some_iff, Named.jsonName_eq, Json.text.injEq]
  · rw [Json.ofText?_toText (.text s), Option.bind_some]
    exact Named.ofJsonName?_eq s

/-- **The JSON of every record leads back to it**, with the decimals of its amounts, as far as JSON
has room for it: its integers have 64 bits, and its instants lie in years of four digits. This holds
for what is written; with the members in any order and unknown ones among them, with optional
members left out that have no value, and for the array of the values; and in the same way for the
records within a record. Kinds and statuses have the same names in JSON as everywhere else. -/
theorem records_read_back :
    (ReadsBack Agent ∧ ReadsBack Team ∧ ReadsBack Invoice ∧ ReadsBack NewInvoice ∧
      ReadsBack History ∧ ReadsBack Submission ∧ ReadsBack Link ∧ ReadsBack LogEntry ∧
      ReadsBack Limit ∧ ReadsBack SetLimit ∧ ReadsBack LimitReport ∧ ReadsBack LimitItem ∧
      ReadsBack Debt ∧ ReadsBack DeterminedLimit ∧ ReadsBack Readjustment) ∧
    NamesAgree Agent.Kind ∧ NamesAgree Team.Kind ∧ NamesAgree Invoice.Kind ∧
      NamesAgree Invoice.Status ∧ NamesAgree Submission.Status ∧ NamesAgree Limit.Scope :=
  ⟨⟨readsBack _, readsBack _, readsBack _, readsBack _, readsBack _, readsBack _, readsBack _,
      readsBack _, readsBack _, readsBack _, readsBack _, readsBack _, readsBack _, readsBack _,
      readsBack _⟩,
    namesAgree _, namesAgree _, namesAgree _, namesAgree _, namesAgree _, namesAgree _⟩

/-- A default limit with the team that has set it. -/
def LimitItem.ofDefault : LimitItem where
  limit := ⟨7, 1, .default, none, ⟨150, 2, by decide, by decide⟩⟩
  team := some ⟨1, "Storage \"A\"", "T0001", .warehouse, ⟨951827696, 250000000, by decide⟩⟩
  forTeam := none

/-- The limit as an array, its team with the members in reverse order, an unknown member beside
both, and none for the team that is missing. -/
def LimitItem.mixed : Json :=
  .object [("version", .number (.ofInt 2)),
    ("team", .object [("city", .null), ("created_at", .text "2000-02-29T12:34:56.250Z"),
      ("team_type", .text "warehouse"), ("team_code", .text "T0001"),
      ("name", .text "Storage \"A\""), ("id", .ofInt 1)]),
    ("config", .array [.ofInt 7, .ofInt 1, .text "DEFAULT", .null, .text "1.50"])]

theorem records_read_back_mixed :
    Fits LimitItem.ofDefault ∧ Spells LimitItem.ofDefault LimitItem.mixed ∧
      LimitItem.mixed.Readable ∧
      (Json.ofText? LimitItem.mixed.toText).bind ofJson? = some LimitItem.ofDefault := by
  have fits : Fits LimitItem.ofDefault := by
    have common : (⟨951827696, 250000000, by decide⟩ : Instant).Common :=
      ⟨by decide, by decide, by decide⟩
    simpa [Fits, Record.members, Member.Fits, LimitItem.ofDefault] using common
  have created : Json.text "2000-02-29T12:34:56.250Z" =
      toJson (⟨951827696, 250000000, by decide⟩ : Instant) := congrArg Json.text (by decide)
  have threshold : Json.text "1.50" = toJson (⟨150, 2, by decide, by decide⟩ : Money) :=
    congrArg Json.text (by decide)
  have spells : Spells LimitItem.ofDefault LimitItem.mixed :=
    @Record.Spells.object _ _ [("version", _)] _
      (.member (.array (.cons rfl (.cons rfl (.cons rfl (.cons rfl (.cons threshold .nil))))))
        (.member
          (@Record.Spells.object _ _ [("city", _)] _
            (.member rfl (.member rfl (.member rfl (.member rfl (.member created .nil)))))
            (List.forall_mem_singleton.2 (by decide)) (List.reverse_perm [_, _, _, _, _, _]))
          (.leftOut rfl .nil)))
      (List.forall_mem_singleton.2 (by decide)) (List.reverse_perm [_, _, _])
  have int (n : Int) : (Json.ofInt n).Readable := .number (Json.Number.wellFormed_ofInt n)
  have none {α : Type} {p : α → Prop} : ∀ a ∈ [], p a := fun _ ha => absurd ha List.not_mem_nil
  have readable : LimitItem.mixed.Readable := by
    refine .object ?_
    simp only [List.forall_mem_cons]
    refine ⟨int 2, .object ?_, .array ?_, none⟩
    · simp only [List.forall_mem_cons]
      exact ⟨.null, .text _, .text _, .text _, .text _, int 1, none⟩
    · simp only [List.forall_mem_cons]
      exact ⟨int 7, int 1, .text _, .null, .text _, none⟩
  obtain ⟨⟨-, -, -, -, -, -, -, -, -, -, -, items, -⟩, -⟩ := records_read_back
  exact ⟨fits, spells, readable, ((items _ fits).2 _ spells).2 readable⟩

end TeamLedger
