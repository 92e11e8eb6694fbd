import LangGraph.Hotmart.Escalation

namespace LangGraph

open Collections Store

namespace Hotmart

namespace Support

section Sends

variable {F : Type} [Amounts F] {u : Unicode} {completeJson : CompleteJson F}
  {settings : SupportSettings F} {mail : InboundEmail}

def Eligible (category : EmailCategory) (sentiment : String) : Prop :=
  sentiment ≠ "hostil" ∧ sentiment ≠ "negativo" ∧ category ∈ autoReplyable ∧ category ≠ .spam

theorem decideAutoSend_false (triage : MailTriage F) : (decideAutoSend triage settings).1 = false ↔
    triage.flags ≠ [] ∨ ¬ Eligible triage.category triage.sentiment ∨
      Floats.lt triage.confidence settings.autoReplyMinConfidence = true := by
  rw [decideAutoSend, Eligible]
  split_ifs with hflags htone hcategory hlow hspam
  · exact iff_of_true rfl (.inl hflags)
  · refine iff_of_true rfl (.inr (.inl fun h => ?_))
    exact htone.elim h.1 h.2.1
  · exact iff_of_true rfl (.inr (.inr hlow))
  · exact iff_of_true rfl (.inr (.inl fun h => h.2.2.2 hspam))
  · refine iff_of_false not_false ?_
    rintro (h | h | h)
    · exact hflags h
    · obtain ⟨hhostile, hnegative⟩ := not_or.mp htone
      exact h ⟨hhostile, hnegative, hcategory, hspam⟩
    · exact hlow h
  · exact iff_of_true rfl (.inr (.inl fun h => hcategory h.2.2.1))

-- The threshold less a hundredth is still below it when it is rounded.
def Separated (settings : SupportSettings F) : Prop :=
  Floats.lt (Amounts.round (settings.autoReplyMinConfidence - 0.01) 3)
    settings.autoReplyMinConfidence = true

def Below (settings : SupportSettings F) (x : F) : Prop :=
  Floats.lt (settings.autoReplyMinConfidence - 0.01) x = false ∧
    Floats.lt (Amounts.round x 3) settings.autoReplyMinConfidence = true

variable (u completeJson settings mail) in
-- What the model says of its confidence is a number, or the e-mail would not be sent in any case.
def Harmless : Prop :=
  (classify u mail : MailTriage F).flags = [] → ∀ c parsed,
    usable completeJson mail = some (c, parsed) → ∃ x, statedConfidence parsed = .ok x ∧
      (¬ Eligible c (statedSentiment (classify u mail : MailTriage F).sentiment parsed) ∨
        Floats.eq x x = true ∧ (Separated settings ∨ Below settings x))

variable [LawfulAmounts F]

theorem capped_iff (x : F) :
    Floats.lt (Amounts.round (Amounts.min x (settings.autoReplyMinConfidence - 0.01)) 3)
        settings.autoReplyMinConfidence = true ↔
      Floats.eq x x = true ∧ (Separated settings ∨ Below settings x) := by
  rw [Amounts.min]
  split_ifs with hover
  · have hnumber : Floats.eq x x = true := by
      by_contra hnan
      have hfalse := (LawfulAmounts.lt_nan x (settings.autoReplyMinConfidence - 0.01)
        (Bool.not_eq_true _ ▸ hnan)).2
      exact Bool.false_ne_true (hfalse.symm.trans hover)
    constructor
    · exact fun h => ⟨hnumber, .inl h⟩
    · rintro ⟨-, h | ⟨hnot, -⟩⟩
      · exact h
      · exact absurd (hnot.symm.trans hover) Bool.false_ne_true
  · have hunder : Floats.lt (settings.autoReplyMinConfidence - 0.01) x = false :=
      Bool.not_eq_true _ ▸ hover
    constructor
    · intro h
      refine ⟨?_, .inr ⟨hunder, h⟩⟩
      rw [← LawfulAmounts.eq_round x 3]
      by_contra hnan
      have hfalse := (LawfulAmounts.lt_nan _ settings.autoReplyMinConfidence
        (Bool.not_eq_true _ ▸ hnan)).1
      exact Bool.false_ne_true (hfalse.symm.trans h)
    · rintro ⟨hnumber, hseparated | ⟨-, h⟩⟩
      · have hle := MonotoneAmounts.round_mono x (settings.autoReplyMinConfidence - 0.01) 3 hunder
        exact LawfulAmounts.lt_of_not_lt _ _ _ ((LawfulAmounts.eq_round x 3).trans hnumber)
          hseparated hle
      · exact h

theorem asked_of_low
    (hlow : Floats.lt (classify u mail : MailTriage F).confidence
      settings.autoReplyMinConfidence = true) :
    Asked u settings mail ↔ (classify u mail : MailTriage F).flags = [] := by
  have hunsure := LawfulAmounts.not_le_of_lt _ _ hlow
  rw [Asked, hunsure]
  simp

theorem model_never_sends_iff
    (hlow : Floats.lt (classify u mail : MailTriage F).confidence
      settings.autoReplyMinConfidence = true) :
    (∃ t, classifyEmail u completeJson settings mail = .ok t ∧
        (decideAutoSend t settings).1 = false) ↔
      Harmless u completeJson settings mail := by
  have hrules : (decideAutoSend (classify u mail : MailTriage F) settings).1 = false :=
    (decideAutoSend_false _).mpr (.inr (.inr hlow))
  by_cases hflags : (classify u mail : MailTriage F).flags = []
  · rw [classifyEmail_asked ((asked_of_low hlow).mpr hflags)]
    cases husable : usable completeJson mail with
    | none =>
      refine iff_of_true ⟨_, rfl, hrules⟩ (fun _ c parsed h => ?_)
      cases husable.symm.trans h
    | some answer =>
      obtain ⟨c, parsed⟩ := answer
      cases hconfidence : statedConfidence parsed with
      | error e =>
        refine iff_of_false ?_ (fun h => ?_)
        · rintro ⟨t, ht, -⟩
          cases (overridden_error hconfidence).symm.trans ht
        · obtain ⟨x, hx, -⟩ := h hflags c parsed husable
          cases hconfidence.symm.trans hx
      | ok x =>
        obtain ⟨t, ht, htflags, htcategory, htsentiment, htconfidence⟩ :=
          @overridden_ok F _ settings (classify u mail) c parsed x hconfidence
        have hdecision : (decideAutoSend t settings).1 = false ↔
            ¬ Eligible c (statedSentiment (classify u mail : MailTriage F).sentiment parsed) ∨
              Floats.eq x x = true ∧ (Separated settings ∨ Below settings x) := by
          rw [decideAutoSend_false, htflags, hflags, htcategory, htsentiment, htconfidence,
            capped_iff]
          exact or_iff_right (fun h => h rfl)
        constructor
        · rintro ⟨t', ht', hfalse⟩ _ c' parsed' hsome
          cases husable.symm.trans hsome
          cases ht.symm.trans ht'
          exact ⟨x, hconfidence, hdecision.mp hfalse⟩
        · intro h
          obtain ⟨x', hx', hor⟩ := h hflags c parsed husable
          cases hconfidence.symm.trans hx'
          exact ⟨t, ht, hdecision.mpr hor⟩
  · have hcertain : ¬ Asked u settings mail := fun h => hflags ((asked_of_low hlow).mp h)
    rw [classifyEmail_certain hcertain]
    exact iff_of_true ⟨_, rfl, hrules⟩ (fun h => absurd h hflags)

end Sends

def unclear : InboundEmail := ⟨"m1", "ana@x.com", "oi", "tudo bem"⟩

theorem confident_model_held :
    ∃ t, classifyEmail plainText (fun _ _ => some [("category", .str "acesso"),
        ("confidence", .float 0.99)]) supportSettings unclear = .ok t ∧
      (decideAutoSend t supportSettings).1 = false := by
  have hlow : Floats.lt (classify plainText unclear : MailTriage Rat).confidence
      supportSettings.autoReplyMinConfidence = true := by
    decide +kernel
  refine (model_never_sends_iff hlow).mpr (fun _ c parsed h => ?_)
  cases h
  have hseparated : Separated supportSettings := by
    rw [Separated]
    decide +kernel
  have htruthy : Amounts.truthy (.float 0.99 : Json Rat) = true := by decide +kernel
  have hstated : statedConfidence [("category", .str "acesso"), ("confidence", .float 0.99)] =
      .ok (0.99 : Rat) := by
    rw [statedConfidence, orElse, field]
    exact congrArg Json.toFloat (if_pos htruthy)
  exact ⟨0.99, hstated, .inr ⟨decide_eq_true rfl, .inl hseparated⟩⟩

-- Texts for fixed inputs, where a number is written in digits.
instance plainTexts : ExactTexts where
  ofStr s := if s ≠ "" ∧ s.toList.all Char.isDigit = true then
    some (.fin (Nat.ofDigitChars 10 s.toList 0)) else none
  num _ _ := ""
  repr _ := ""
  sqrt _ := none

def exactSettings : SupportSettings ExtRat where
  product := ⟨"Ebook", .fin 97, .fin 0, .fin 0.1, 7⟩
  thresholds := ⟨.fin 1, .fin 0.35, .fin 0.6⟩
  guardrails := ⟨.fin 150, 2, .fin 0.3, .fin 50, .fin 2, 25, .fin 300, true⟩
  autonomy := .approve
  dryRun := false
  metaPixelId := ""
  analysisWindowDays := 7
  autoReplyMinConfidence := .fin 0.8
  salesPageUrl := ""
  supportSignature := "Equipe"

theorem nan_confidence_sent :
    let answer := fun confidence : Json ExtRat =>
      classifyEmail plainText (fun _ _ => some [("category", .str "acesso"),
        ("confidence", confidence)]) exactSettings unclear
    Floats.lt (classify plainText unclear : MailTriage ExtRat).confidence
        exactSettings.autoReplyMinConfidence = true ∧
      ((answer (.float .nan)).toOption.map (fun t => (decideAutoSend t exactSettings).1)) =
        some true ∧
      (answer (.str "alta")).toOption.isNone = true := by
  decide +kernel

end Support

end Hotmart

end LangGraph
