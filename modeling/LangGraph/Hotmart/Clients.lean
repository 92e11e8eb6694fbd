import LangGraph.Hotmart.Policy

namespace LangGraph

open Collections Store

namespace Hotmart

-- The classes an `except` clause of a client or of the loop can tell apart.
inductive ErrorKind where
  | imap
  | smtp
  | os
  | agent
  | other
  deriving DecidableEq

structure WireError where
  kind : ErrorKind
  text : String
  deriving DecidableEq

-- A command that raises may have reached the service all the same.
inductive Reply where
  | ok
  | failed (error : WireError) (tookEffect : Bool)
  deriving DecidableEq

inductive Effect where
  | replySent
  | draftSaved
  | handled
  | campaignCreated
  | adsetCreated
  | budgetUpdated
  | campaignPaused
  | refundRequested
  deriving DecidableEq

inductive Handling where
  | converts (service : String)
  | swallows
  | passes
  deriving DecidableEq

structure Command where
  effect : Option Effect
  handling : ErrorKind → Handling

inductive Call (F : Type) where
  | sendReply (recipient subject body inReplyTo : Json F)
  | saveDraft (recipient subject body : Json F)
  | markHandled (emailId : Json F) (label : String)
  | createCampaign (plan : List (String × Json F))
  | updateDailyBudget (adsetId : Json F) (budget : F)
  | pauseCampaign (campaignId : Json F)
  | requestRefund (transaction reason : Json F)

namespace Command

def unguarded : ErrorKind → Handling := fun _ => .passes

def smtpSession : ErrorKind → Handling
  | .smtp | .os => .converts "smtp"
  | _ => .passes

def imapLogin : ErrorKind → Handling
  | .imap | .os => .converts "imap"
  | _ => .passes

def imapIgnored : ErrorKind → Handling
  | .imap => .swallows
  | _ => .passes

end Command

open Command

-- The message is composed before the session; the reply of a command in the session is what
-- leaves the `with` block.
def sendReply : List Command :=
  [⟨none, unguarded⟩, ⟨none, smtpSession⟩, ⟨none, smtpSession⟩, ⟨none, smtpSession⟩,
    ⟨some .replySent, smtpSession⟩, ⟨none, smtpSession⟩]

def saveDraft : List Command :=
  [⟨none, unguarded⟩, ⟨none, imapLogin⟩, ⟨some .draftSaved, unguarded⟩]

-- Login, select, the flag of a handled message, the optional label.
def markHandled : List Command :=
  [⟨none, imapLogin⟩, ⟨none, imapIgnored⟩, ⟨some .handled, imapIgnored⟩, ⟨none, imapIgnored⟩]

def createCampaign : List Command :=
  [⟨some .campaignCreated, unguarded⟩, ⟨some .adsetCreated, unguarded⟩]

def updateDailyBudget : List Command := [⟨some .budgetUpdated, unguarded⟩]

def pauseCampaign : List Command := [⟨some .campaignPaused, unguarded⟩]

-- The access token is fetched first.
def requestRefund : List Command := [⟨none, unguarded⟩, ⟨some .refundRequested, unguarded⟩]

def Call.commands {F : Type} : Call F → List Command
  | .sendReply .. => Hotmart.sendReply
  | .saveDraft .. => Hotmart.saveDraft
  | .markHandled .. => Hotmart.markHandled
  | .createCampaign .. => Hotmart.createCampaign
  | .updateDailyBudget .. => Hotmart.updateDailyBudget
  | .pauseCampaign .. => Hotmart.pauseCampaign
  | .requestRefund .. => Hotmart.requestRefund

end Hotmart

end LangGraph
