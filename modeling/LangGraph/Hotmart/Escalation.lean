import LangGraph.Hotmart.Support
import Mathlib.Data.List.Dedup
import Mathlib.Tactic.Push

namespace LangGraph

open Collections Store

namespace Hotmart

namespace Support

section Terms

variable {F : Type} [Amounts F] (u : Unicode) (mail : InboundEmail)

def Known (F : Type) [Amounts F] (u : Unicode) (mail : InboundEmail) : Prop :=
  ∃ c ∈ (keywords : List (EmailCategory × List (String × F))), ∃ t ∈ c.2,
    contains u mail t.1 = true

def HasEscalationTerm : Prop := ∃ t ∈ escalationTerms, contains u mail t.1 = true

instance : Decidable (Known F u mail) := inferInstanceAs (Decidable (∃ c ∈ _, ∃ t ∈ _, _))

instance : Decidable (HasEscalationTerm u mail) := inferInstanceAs (Decidable (∃ t ∈ _, _))

variable {u mail}

theorem flags_ne_nil (h : HasEscalationTerm u mail) : flags u mail ≠ [] := by
  obtain ⟨t, ht, hcontains⟩ := h
  intro hnil
  have hmem : t.2 ∈ (escalationTerms.filter (fun t => contains u mail t.1)).map Prod.snd :=
    List.mem_map_of_mem (List.mem_filter.mpr ⟨ht, hcontains⟩)
  have hsorted : t.2 ∈ flags u mail :=
    (List.mergeSort_perm _ _).mem_iff.mpr (List.mem_dedup.mpr hmem)
  rw [hnil] at hsorted
  cases hsorted

variable [LawfulAmounts F]

theorem pos_weight : ∀ c ∈ (keywords : List (EmailCategory × List (String × F))), ∀ t ∈ c.2,
    Floats.lt 0.0 t.2 = true := by
  simp only [keywords, List.forall_mem_cons]
  and_intros <;> first
    | exact LawfulAmounts.pos_literal _ (by decide)
    | exact fun _ h => absurd h List.not_mem_nil

theorem pos_foldl {ws : List F} (hpos : ∀ w ∈ ws, Floats.lt 0.0 w = true) {x : F}
    (hx : Floats.lt 0.0 x = true) : Floats.lt 0.0 (ws.foldl (· + ·) x) = true := by
  induction ws generalizing x with
  | nil => exact hx
  | cons w ws ih =>
    obtain ⟨hw, hws⟩ := List.forall_mem_cons.mp hpos
    exact ih hws (LawfulAmounts.add_pos x w (LawfulAmounts.le_of_lt 0.0 x hx) hw)

theorem nonzero_total {ts : List (String × F)} (hpos : ∀ t ∈ ts, Floats.lt 0.0 t.2 = true) :
    Amounts.nonzero (total ts) = true ↔ ts ≠ [] := by
  cases ts with
  | nil =>
    have hzero : Amounts.nonzero (total ([] : List (String × F))) = false :=
      LawfulAmounts.not_nonzero_zero
    exact iff_of_false (fun h => Bool.false_ne_true (hzero.symm.trans h)) (fun h => h rfl)
  | cons t ts =>
    obtain ⟨ht, hts⟩ := List.forall_mem_cons.mp hpos
    refine iff_of_true (LawfulAmounts.nonzero_of_pos _ ?_) (List.cons_ne_nil t ts)
    rw [total, List.map_cons, List.foldl_cons]
    refine pos_foldl (fun w hw => ?_) (LawfulAmounts.add_pos 0.0 t.2 LawfulAmounts.le_zero ht)
    obtain ⟨s, hs, rfl⟩ := List.mem_map.mp hw
    exact hts s hs

theorem scores_eq_nil : (scores u mail : List (EmailCategory × F)) = [] ↔ ¬ Known F u mail := by
  rw [scores, List.filter_eq_nil_iff]
  have hsome (c : EmailCategory × List (String × F)) (hc : c ∈ keywords) :
      Amounts.nonzero (total (hits u mail c.2)) = true ↔
        ∃ t ∈ c.2, contains u mail t.1 = true := by
    have hpos : ∀ t ∈ hits u mail c.2, Floats.lt 0.0 t.2 = true :=
      fun t ht => pos_weight c hc t (List.mem_filter.mp ht).1
    rw [nonzero_total hpos, hits, ne_eq, List.filter_eq_nil_iff]
    push Not
    rfl
  constructor
  · rintro hnone ⟨c, hc, hterm⟩
    exact hnone _ (List.mem_map_of_mem hc) ((hsome c hc).mpr hterm)
  · intro hunknown d hd hnonzero
    obtain ⟨c, hc, rfl⟩ := List.mem_map.mp hd
    exact hunknown ⟨c, hc, (hsome c hc).mp hnonzero⟩

end Terms

section Classified

variable {F : Type} [Amounts F] {u : Unicode} {completeJson : CompleteJson F}
  {settings : SupportSettings F} {mail : InboundEmail}

theorem classify_unknown (h : (scores u mail : List (EmailCategory × F)) = []) :
    (classify u mail : MailTriage F) =
      ⟨mail.id, .other, 0.0, "neutro", "normal", [], [], "rules"⟩ := by
  rw [classify, h]
  simp only [List.mergeSort_nil]

theorem classify_flags (h : (scores u mail : List (EmailCategory × F)) ≠ []) :
    (classify u mail : MailTriage F).flags = flags u mail := by
  have hsorted : (scores u mail : List (EmailCategory × F)).mergeSort
      (fun a b => !Floats.lt a.2 b.2) ≠ [] := by
    intro hnil
    exact h (List.Perm.nil_eq (hnil ▸ List.mergeSort_perm _ _)).symm
  rw [classify]
  simp only
  split
  · exact absurd ‹_› hsorted
  · rfl

variable (u completeJson settings mail)

-- The rules are not sure enough and have raised no flag.
def Asked : Prop :=
  ¬ (Floats.le settings.autoReplyMinConfidence (classify u mail : MailTriage F).confidence = true ∨
    (classify u mail : MailTriage F).flags ≠ [])

-- What of the model's answer can be used.
def usable : Option (EmailCategory × List (String × Json F)) :=
  match completeJson classifierSystem (prompt mail) with
  | none | some [] => none
  | some parsed =>
      (EmailCategory.ofJson (field parsed "category" (.str ""))).map (fun c => (c, parsed))

def statedConfidence (parsed : List (String × Json F)) : Except CompareError F :=
  (orElse (field parsed "confidence" .null) (.float 0.5)).toFloat

def statedSentiment (default : String) (parsed : List (String × Json F)) : String :=
  Amounts.text (orElse (field parsed "sentiment" .null) (.str default))

def Readable : Prop :=
  Asked u settings mail → ∀ c parsed, usable completeJson mail = some (c, parsed) →
    ∃ x, statedConfidence parsed = .ok x

def ModelHostile : Prop :=
  Asked u settings mail ∧ ∃ c parsed, usable completeJson mail = some (c, parsed) ∧
    statedSentiment "neutro" parsed = "hostil"

variable {u completeJson settings mail}

theorem classifyEmail_certain (h : ¬ Asked u settings mail) :
    classifyEmail u completeJson settings mail = .ok (classify u mail) := by
  rw [classifyEmail]
  exact if_pos (not_not.mp h)

theorem classifyEmail_asked (h : Asked u settings mail) :
    classifyEmail u completeJson settings mail =
      match usable completeJson mail with
      | none => .ok (classify u mail)
      | some (c, parsed) => overridden settings (classify u mail) c parsed := by
  rw [classifyEmail, usable, if_neg h]
  rcases completeJson classifierSystem (prompt mail) with _ | _ | ⟨item, items⟩
  · rfl
  · rfl
  · simp only
    cases EmailCategory.ofJson (field (item :: items) "category" (.str "")) <;> rfl

theorem overridden_ok {triage : MailTriage F} {c : EmailCategory}
    {parsed : List (String × Json F)} {x : F} (h : statedConfidence parsed = .ok x) :
    ∃ t, overridden settings triage c parsed = .ok t ∧ t.flags = triage.flags ∧ t.category = c ∧
      t.sentiment = statedSentiment triage.sentiment parsed ∧
      t.confidence =
        Amounts.round (Amounts.min x (settings.autoReplyMinConfidence - 0.01)) 3 := by
  rw [statedConfidence] at h
  rw [overridden, h]
  exact ⟨_, rfl, rfl, rfl, rfl, rfl⟩

theorem overridden_error {triage : MailTriage F} {c : EmailCategory}
    {parsed : List (String × Json F)} {e : CompareError} (h : statedConfidence parsed = .error e) :
    overridden settings triage c parsed = .error e := by
  rw [statedConfidence] at h
  rw [overridden, h]
  rfl

theorem classifyEmail_ok_iff : (∃ t, classifyEmail u completeJson settings mail = .ok t) ↔
    Readable u completeJson settings mail := by
  by_cases hasked : Asked u settings mail
  · rw [classifyEmail_asked hasked]
    cases husable : usable completeJson mail with
    | none =>
      refine iff_of_true ⟨_, rfl⟩ (fun _ c parsed h => ?_)
      cases husable.symm.trans h
    | some answer =>
      obtain ⟨c, parsed⟩ := answer
      simp only
      constructor
      · rintro ⟨t, ht⟩ _ c' parsed' h
        cases husable.symm.trans h
        cases hconfidence : statedConfidence parsed with
        | ok x => exact ⟨x, rfl⟩
        | error e => cases (overridden_error hconfidence).symm.trans ht
      · intro hreadable
        obtain ⟨x, hx⟩ := hreadable hasked c parsed husable
        obtain ⟨t, ht, -⟩ := overridden_ok hx
        exact ⟨t, ht⟩
  · rw [classifyEmail_certain hasked]
    exact iff_of_true ⟨_, rfl⟩ (fun h => absurd h hasked)

end Classified

section Inbox

variable {F : Type} [Amounts F] {u : Unicode} {completeJson : CompleteJson F}
  {settings : SupportSettings F} {fresh : Nat → String}

def Escalates (r : EmailReply F) : Prop := r.triage.flags ≠ [] ∨ r.triage.sentiment = "hostil"

theorem length_actionsFromEmails (n : Nat) (budget : Int) (replies : List (EmailReply F)) :
    (actionsFromEmails fresh settings.toSettings n budget replies).length = replies.length := by
  induction replies generalizing n budget with
  | nil => rfl
  | cons r replies ih =>
    rw [actionsFromEmails]
    split_ifs <;> rw [List.length_cons, List.length_cons, ih]

-- Every e-mail has its own action, and who is to escalate is asked before anything else.
theorem actionsFromEmails_getElem? {replies : List (EmailReply F)} {i : Nat} {r : EmailReply F}
    (h : replies[i]? = some r) (n : Nat) (budget : Int) :
    ∃ a, (actionsFromEmails fresh settings.toSettings n budget replies)[i]? = some a ∧
      field a.payload "email_id" .null = .str r.emailId ∧ (a.type = .escalate ↔ Escalates r) := by
  induction replies generalizing n budget i with
  | nil => cases h
  | cons r' replies ih =>
    rw [actionsFromEmails]
    cases i with
    | zero =>
      obtain rfl := Option.some.inj h
      split_ifs with hescalates hauto
      · exact ⟨_, rfl, rfl, iff_of_true rfl hescalates⟩
      · exact ⟨_, rfl, rfl, iff_of_false (fun h => by cases h) hescalates⟩
      · exact ⟨_, rfl, rfl, iff_of_false (fun h => by cases h) hescalates⟩
    | succ i =>
      split_ifs
      · exact ih h _ _
      · exact ih h _ _
      · exact ih h _ _

def inboxActions (fresh : Nat → String) (u : Unicode) (completeJson : CompleteJson F)
    (settings : SupportSettings F) (emails : List InboundEmail) :
    Except CompareError (List (Action F)) := do
  let (replies, _) ← triageInbox u completeJson settings emails
  return actionsFromEmails fresh settings.toSettings 0 settings.guardrails.maxAutoEmailsPerRun
    replies

-- The actions stand in the order of the e-mails, one for each; this one's is an escalation.
def EscalatedAt (actions : Except CompareError (List (Action F))) (emails : List InboundEmail)
    (i : Nat) (mail : InboundEmail) : Prop :=
  ∃ as a, actions = .ok as ∧ as.length = emails.length ∧ as[i]? = some a ∧
    field a.payload "email_id" .null = .str mail.id ∧ a.type = .escalate

variable {emails : List InboundEmail} {mail : InboundEmail}

theorem triageInbox_ok {replies : List (EmailReply F)}
    {findings : List (Finding F × SupportEvidence)}
    (h : triageInbox u completeJson settings emails = .ok (replies, findings)) :
    replies.length = emails.length ∧ ∀ (i : Nat) mail, emails[i]? = some mail → ∃ t,
      classifyEmail u completeJson settings mail = .ok t ∧
        replies[i]? = some (reply u settings mail t) := by
  obtain ⟨triaged, htriaged, h⟩ := Exceptions.bind_ok h
  cases h
  refine ⟨?_, fun i mail hmail => ?_⟩
  · rw [List.length_map]
    exact (Exceptions.forall₂_of_mapM htriaged).length_eq.symm
  · obtain ⟨t, ht, hpair⟩ := Exceptions.mapM_getElem? htriaged hmail
    obtain ⟨t', ht', hpair⟩ := Exceptions.bind_ok hpair
    cases hpair
    exact ⟨t', ht', by rw [List.getElem?_map, ht]; rfl⟩

theorem triageInbox_ok_iff : (∃ r, triageInbox u completeJson settings emails = .ok r) ↔
    ∀ m ∈ emails, Readable u completeJson settings m := by
  have hreads (m : InboundEmail) :
      (∃ p, (do return (m, ← classifyEmail u completeJson settings m) :
        Except CompareError (InboundEmail × MailTriage F)) = .ok p) ↔
      Readable u completeJson settings m := by
    rw [← classifyEmail_ok_iff]
    cases classifyEmail u completeJson settings m with
    | ok t => exact iff_of_true ⟨_, rfl⟩ ⟨_, rfl⟩
    | error e => exact iff_of_false (fun ⟨_, h⟩ => by cases h) (fun ⟨_, h⟩ => by cases h)
  constructor
  · rintro ⟨r, h⟩ m hm
    obtain ⟨triaged, htriaged, -⟩ := Exceptions.bind_ok h
    exact (hreads m).mp (Exceptions.mapM_isOk_iff.mp ⟨triaged, htriaged⟩ m hm)
  · intro hall
    obtain ⟨triaged, htriaged⟩ :=
      Exceptions.mapM_isOk_iff.mpr (fun m hm => (hreads m).mpr (hall m hm))
    rw [triageInbox, htriaged]
    exact ⟨_, rfl⟩

variable [LawfulAmounts F]

theorem escalates_iff (hterm : HasEscalationTerm u mail) {t : MailTriage F}
    (h : classifyEmail u completeJson settings mail = .ok t) :
    Escalates (reply u settings mail t) ↔
      Known F u mail ∨ ModelHostile u completeJson settings mail := by
  have hreply : Escalates (reply u settings mail t) ↔ t.flags ≠ [] ∨ t.sentiment = "hostil" :=
    Iff.rfl
  rw [hreply]
  by_cases hscores : (scores u mail : List (EmailCategory × F)) = []
  · have hunknown := scores_eq_nil.mp hscores
    have hrules := classify_unknown hscores
    have hquiet : ¬ ((classify u mail : MailTriage F).flags ≠ [] ∨
        (classify u mail : MailTriage F).sentiment = "hostil") := by
      rw [hrules]
      simp
    by_cases hasked : Asked u settings mail
    · rw [classifyEmail_asked hasked] at h
      cases husable : usable completeJson mail with
      | none =>
        rw [husable] at h
        cases h
        refine iff_of_false hquiet (fun hor => hor.elim hunknown ?_)
        rintro ⟨-, c, parsed, hsome, -⟩
        cases husable.symm.trans hsome
      | some answer =>
        obtain ⟨c, parsed⟩ := answer
        rw [husable] at h
        simp only at h
        cases hconfidence : statedConfidence parsed with
        | error e => cases (overridden_error hconfidence).symm.trans h
        | ok x =>
          obtain ⟨t', ht', hflags, -, hsentiment, -⟩ := overridden_ok hconfidence
          cases ht'.symm.trans h
          rw [hflags, hsentiment, hrules]
          constructor
          · rintro (hne | hhostile)
            · exact absurd rfl hne
            · exact .inr ⟨hasked, c, parsed, husable, hhostile⟩
          · rintro (hknown | ⟨-, c', parsed', hsome, hhostile⟩)
            · exact absurd hknown hunknown
            · cases husable.symm.trans hsome
              exact .inr hhostile
    · rw [classifyEmail_certain hasked] at h
      cases h
      exact iff_of_false hquiet (fun hor => hor.elim hunknown (fun hm => hasked hm.1))
  · have hflags : (classify u mail : MailTriage F).flags ≠ [] := by
      rw [classify_flags hscores]
      exact flags_ne_nil hterm
    have hcertain : ¬ Asked u settings mail := fun hasked => hasked (.inr hflags)
    rw [classifyEmail_certain hcertain] at h
    cases h
    exact iff_of_true (.inl hflags) (.inl (not_not.mp (fun hno => hscores (scores_eq_nil.mpr hno))))

theorem escalation_reaches_human_iff {i : Nat} (hmail : emails[i]? = some mail)
    (hterm : HasEscalationTerm u mail) :
    EscalatedAt (inboxActions fresh u completeJson settings emails) emails i mail ↔
      (∀ m ∈ emails, Readable u completeJson settings m) ∧
        (Known F u mail ∨ ModelHostile u completeJson settings mail) := by
  rw [← triageInbox_ok_iff]
  cases hinbox : triageInbox u completeJson settings emails with
  | error e =>
    refine iff_of_false ?_ (fun h => by obtain ⟨⟨r, hr⟩, -⟩ := h; cases hr)
    rintro ⟨as, a, has, -⟩
    rw [inboxActions, hinbox] at has
    cases has
  | ok r =>
    obtain ⟨replies, findings⟩ := r
    obtain ⟨hlength, hreplies⟩ := triageInbox_ok hinbox
    obtain ⟨t, ht, hreply⟩ := hreplies i mail hmail
    obtain ⟨a, ha, hid, htype⟩ := @actionsFromEmails_getElem? F _ settings fresh replies i _
      hreply 0 settings.guardrails.maxAutoEmailsPerRun
    rw [escalates_iff hterm ht] at htype
    have hactions : inboxActions fresh u completeJson settings emails =
        .ok (actionsFromEmails fresh settings.toSettings 0
          settings.guardrails.maxAutoEmailsPerRun replies) := by
      rw [inboxActions, hinbox]
      rfl
    constructor
    · rintro ⟨as, b, has, -, hb, -, hescalate⟩
      cases hactions.symm.trans has
      cases ha.symm.trans hb
      exact ⟨⟨_, rfl⟩, htype.mp hescalate⟩
    · rintro ⟨-, hor⟩
      exact ⟨_, a, hactions, by rw [length_actionsFromEmails, hlength], ha, hid, htype.mpr hor⟩

end Inbox

-- The text functions where there are no capitals and no accents.
def plainText : Unicode := ⟨id, id, fun _ => false, fun _ => false, String.ofList⟩

def supportSettings : SupportSettings Rat where
  toSettings := liveSettings .approve
  autoReplyMinConfidence := 0.8
  salesPageUrl := ""
  supportSignature := "Equipe"

def noModel : CompleteJson Rat := fun _ _ => none

def legalThreat : InboundEmail := ⟨"m1", "ana@x.com", "acesso", "vou ao procon"⟩

def dataRequest : InboundEmail := ⟨"m2", "ana@x.com", "lgpd", "excluir meus dados"⟩

theorem legal_threat_escalated :
    EscalatedAt (inboxActions (fun n => toString n) plainText noModel supportSettings [legalThreat])
      [legalThreat] 0 legalThreat := by
  have hterm : HasEscalationTerm plainText legalThreat := by decide +kernel
  have hknown : Known Rat plainText legalThreat := by decide +kernel
  have hmail : [legalThreat][0]? = some legalThreat := rfl
  refine (escalation_reaches_human_iff hmail hterm).mpr ⟨fun m _ _ c parsed h => ?_, .inl hknown⟩
  cases h

theorem data_request_drafted :
    HasEscalationTerm plainText dataRequest ∧
      ((inboxActions (fun n => toString n) plainText noModel supportSettings
        [dataRequest]).toOption.map (fun as => as.map Action.type)) = some [.draftEmail] ∧
      ¬ EscalatedAt (inboxActions (fun n => toString n) plainText noModel supportSettings
        [dataRequest]) [dataRequest] 0 dataRequest := by
  have hterm : HasEscalationTerm plainText dataRequest := by decide +kernel
  have hdraft : ((inboxActions (fun n => toString n) plainText noModel supportSettings
      [dataRequest]).toOption.map (fun as => as.map Action.type)) = some [.draftEmail] := by
    decide +kernel
  refine ⟨hterm, hdraft, ?_⟩
  rintro ⟨as, a, has, -, ha, -, htype⟩
  rw [has] at hdraft
  have htypes : as.map Action.type = [.draftEmail] := Option.some.inj hdraft
  have hfirst : (as.map Action.type)[0]? = some a.type := by
    rw [List.getElem?_map, ha]
    rfl
  rw [htypes, htype] at hfirst
  cases hfirst

end Support

end Hotmart

end LangGraph
