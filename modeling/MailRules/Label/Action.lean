/-!
# Actions

An action asks for one label to be on a message or off it. All but one put a label on; only marking
as read takes one off.
-/

namespace MailRules

/-- The labels that actions touch, by their names on the server. -/
inductive Label
  | unread | starred | important | spam | categorySocial | inbox
  deriving DecidableEq, Repr

def Label.name : Label → String
  | .unread => "UNREAD"
  | .starred => "STARRED"
  | .important => "IMPORTANT"
  | .spam => "SPAM"
  | .categorySocial => "CATEGORY_SOCIAL"
  | .inbox => "INBOX"

theorem Label.name_inj {a b : Label} (h : a.name = b.name) : a = b := by
  cases a <;> cases b <;> simp_all [name]

inductive Action
  | markAsUnread | markAsRead
  | moveToStarred | moveToImportant | moveToSpam | moveToCategorySocial | moveToInbox
  deriving DecidableEq, Repr

inductive Change
  | add | remove
  deriving DecidableEq, Repr

namespace Action

def name : Action → String
  | .markAsUnread => "mark_as_unread"
  | .markAsRead => "mark_as_read"
  | .moveToStarred => "move_to_starred"
  | .moveToImportant => "move_to_important"
  | .moveToSpam => "move_to_spam"
  | .moveToCategorySocial => "move_to_category_social"
  | .moveToInbox => "move_to_inbox"

def named? : String → Option Action
  | "mark_as_unread" => some .markAsUnread
  | "mark_as_read" => some .markAsRead
  | "move_to_starred" => some .moveToStarred
  | "move_to_important" => some .moveToImportant
  | "move_to_spam" => some .moveToSpam
  | "move_to_category_social" => some .moveToCategorySocial
  | "move_to_inbox" => some .moveToInbox
  | _ => none

@[simp] theorem named?_name (a : Action) : named? a.name = some a := by cases a <;> rfl

def label : Action → Label
  | .markAsUnread | .markAsRead => .unread
  | .moveToStarred => .starred
  | .moveToImportant => .important
  | .moveToSpam => .spam
  | .moveToCategorySocial => .categorySocial
  | .moveToInbox => .inbox

def change : Action → Change
  | .markAsRead => .remove
  | _ => .add

/-- The actions of a list of names, or the first name that is none. -/
def ofNames : List String → Except String (List Action)
  | [] => .ok []
  | name :: names => do
    match named? name with
    | none => .error name
    | some a =>
      let as ← ofNames names
      pure (a :: as)

/-- What is said of a name that is no action. -/
def unknownMessage (name : String) : String := s!"{name} - invalid action"

end Action

end MailRules
