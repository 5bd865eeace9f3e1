/-
# The users that a message mentions

`setMessageAttribute` makes a link to a profile of each `@` with a name, when a message is
set, and `mentionedUsers` reads the names to notify from what has been set: names with
dots, and only behind an `@` that no word runs up to, so that addresses are left alone.

In a link no word runs up to the `@` and no name goes on behind it. So whatever the text,
the names that are mentioned, but for those that begin with a dot, are those that have been
linked, each once and in their order (`mentionedUsers_setMessage`); who has no such name is
notified exactly if their profile is linked (`mem_userMentioned`), in an address too.

Key definitions: `setMessageAttribute`, `mentionedUsers`, `userMentioned`, `linkedNames`.
Key theorems: `mentionedUsers_setMessage`, `mem_userMentioned`.
-/
import Daywright.Marked

namespace Daywright
namespace Conversation

open Marked

/-- `\w`, of single bytes. -/
def isWord (c : Char) : Bool := c.isAlphanum || c == '_'

/-- `[\w\-]` -/
def isName (c : Char) : Bool := isWord c || c == '-'

/-- `[\w.-]` -/
def isLong (c : Char) : Bool := isWord c || c == '.' || c == '-'

/-- `<a href="/user/$1/profile" target="_blank">$0</a>`, up to `$0`. -/
def beforeName (n : List Char) : List Char :=
  "<a href=\"/user/".toList ++ n ++ "/profile\" target=\"_blank\">".toList

theorem beforeName_eq (n : List Char) : ∃ r a, beforeName n = r ++ [a] ∧ isWord a = false := by
  have hlast : "/profile\" target=\"_blank\">".toList = "/profile\" target=\"_blank\"".toList ++ ['>'] := by
    decide +kernel
  refine ⟨"<a href=\"/user/".toList ++ n ++ "/profile\" target=\"_blank\"".toList, '>', ?_, by decide⟩
  unfold beforeName
  rw [hlast, List.append_assoc _ _ ['>']]

/-- The two patterns, and the link. -/
def link : Frame Char where
  mark := '@'
  name := isName
  word := isWord
  long := isLong
  before := beforeName
  after := "</a>".toList
  long_of_name c h := by
    unfold isName at h
    unfold isLong
    rcases (Bool.or_eq_true _ _).mp h with h | h <;> simp [h]
  long_mark := by decide
  word_mark := by decide
  mark_notMem_before n hn h := by
    rcases List.mem_append.mp h with h | h
    · rcases List.mem_append.mp h with h | h
      · exact absurd h (by decide)
      · exact absurd (hn _ h) (by decide)
    · exact absurd h (by decide)
  head_before n := ⟨'<', _, rfl, by decide⟩
  last_before := beforeName_eq
  mark_notMem_after := by decide
  head_after := ⟨'<', _, rfl, by decide⟩

/-- `preg_replace('/@([\w\-]+)/', …, (string) $message)`. -/
def setMessageAttribute (message : Option String) : String := String.ofList (link.write (message.getD "").toList)

/-- The names of the message that links have been made of, as they come. -/
def linkedNames (message : String) : List String := (link.names message.toList).map String.ofList

/-- `preg_match_all('/(?<![\w])@([\w.-]+)/', $message, $matches)`, and each name once. -/
def mentionedUsers (message : Option String) : List String :=
  let message := message.getD ""
  if message = "" then [] else unique [] ((link.scan false 0 message.toList).map String.ofList)

structure User where
  id : ℕ
  username : Option String
  deriving DecidableEq, Repr

section

variable (same : String → String → Bool) (users : List User)

/-- `User::whereIn('username', …)`, as the database compares names. -/
def mentionedUsersData (message : Option String) : List User :=
  let names := mentionedUsers message
  if names = [] then [] else users.filter fun u => u.username.any fun username => names.any (same username)

/-- The users that are notified of a message. -/
def userMentioned (message : Option String) : List User :=
  if message.all fun m => m == "" || m == "0" then [] else mentionedUsersData same users message

end

/-- A name that begins with a dot is no name of a link. -/
def dotted (n : String) : Bool := n.toList.head? == some '.'

/-- What the longer pattern finds begins as a name does, or with a dot. -/
theorem begins_eq {n : List Char} (hne : n ≠ []) (h : ∀ c ∈ n, isLong c = true) :
    link.begins n = !dotted (String.ofList n) := by
  cases n with
  | nil => exact absurd rfl hne
  | cons c n =>
    have hc := h c List.mem_cons_self
    change isName c = !dotted (String.ofList (c :: n))
    rw [dotted, String.toList_ofList, List.head?_cons]
    by_cases hdot : c = '.'
    · subst hdot
      decide
    · have hne : (some c == some '.') = false := beq_eq_false_iff_ne.mpr fun he => hdot (Option.some.inj he)
      rw [isLong, beq_eq_false_iff_ne.mpr hdot, Bool.or_false] at hc
      rw [hne, isName, hc]
      rfl

theorem mentionedUsers_some (message : String) :
    mentionedUsers (some message) = unique [] ((link.scan false 0 message.toList).map String.ofList) := by
  unfold mentionedUsers
  by_cases h : message = ""
  · subst h
    rfl
  · exact if_neg h

/-- **Who is mentioned is linked.** Of a message that has been set, the names that are
mentioned, but for those that begin with a dot, are the names that have been linked, each
once, where it stands first. -/
theorem mentionedUsers_setMessage (message : Option String) :
    ((mentionedUsers (some (setMessageAttribute message))).filter fun n => !dotted n) =
      unique [] (linkedNames (message.getD "")) := by
  have hbegins : ∀ n ∈ link.scan false 0 (link.write (message.getD "").toList),
      (!dotted (String.ofList n)) = link.begins n := by
    intro n hn
    obtain ⟨hne, hlong⟩ := Frame.long_of_scan false 0 _ hn
    exact (begins_eq hne hlong).symm
  calc ((mentionedUsers (some (setMessageAttribute message))).filter fun n => !dotted n)
      = unique [] (((link.scan false 0 (link.write (message.getD "").toList)).map String.ofList).filter
          fun n => !dotted n) := by
        rw [mentionedUsers_some, setMessageAttribute, String.toList_ofList, unique_filter]
    _ = unique [] (((link.scan false 0 (link.write (message.getD "").toList)).filter link.begins).map
          String.ofList) := by
        rw [List.filter_map]
        exact congrArg (fun ns => unique [] (ns.map String.ofList)) (List.filter_congr hbegins)
    _ = unique [] (linkedNames (message.getD "")) := by
        rw [Frame.write, Frame.scan_write, linkedNames, Frame.names]

/-- An address has no `@` that a word does not run up to, until it is linked. -/
example : mentionedUsers (some "bob@example.test") = [] ∧
    mentionedUsers (some (setMessageAttribute (some "bob@example.test"))) = ["example"] := by decide +kernel

theorem mem_linkedNames {message : Option String} {n : String} : n ∈ linkedNames (message.getD "") ↔
    n ∈ mentionedUsers (some (setMessageAttribute message)) ∧ dotted n = false := by
  have h : n ∈ unique [] (linkedNames (message.getD "")) ↔ n ∈ linkedNames (message.getD "") ∧ n ∉ [] := mem_unique
  rw [← mentionedUsers_setMessage, List.mem_filter, Bool.not_eq_true'] at h
  rw [h]
  exact (and_iff_left List.not_mem_nil).symm

/-- **Who is notified.** A user with a username that no name with a dot in front compares equal
to is notified of a message if and only if the message links to a name that does. -/
theorem mem_userMentioned (same : String → String → Bool) (users : List User) (message : Option String) (u : User)
    (hdot : ∀ username ∈ u.username, ∀ n, dotted n = true → same username n = false) :
    u ∈ userMentioned same users (some (setMessageAttribute message)) ↔
      u ∈ users ∧ ∃ username ∈ u.username, ∃ n ∈ linkedNames (message.getD ""), same username n = true := by
  have hdata : u ∈ mentionedUsersData same users (some (setMessageAttribute message)) ↔
      u ∈ users ∧ ∃ username ∈ u.username, ∃ n ∈ mentionedUsers (some (setMessageAttribute message)),
        same username n = true := by
    unfold mentionedUsersData
    by_cases hnames : mentionedUsers (some (setMessageAttribute message)) = []
    · rw [if_pos hnames, hnames]
      exact iff_of_false List.not_mem_nil fun ⟨_, _, _, n, hn, _⟩ => List.not_mem_nil hn
    · rw [if_neg hnames, List.mem_filter, Option.any_eq_true]
      simp only [List.any_eq_true, Option.mem_def]
  have hnames : (∃ username ∈ u.username, ∃ n ∈ mentionedUsers (some (setMessageAttribute message)),
      same username n = true) ↔
        ∃ username ∈ u.username, ∃ n ∈ linkedNames (message.getD ""), same username n = true := by
    refine exists_congr fun username => and_congr_right fun husername => exists_congr fun n => ?_
    rw [mem_linkedNames, and_assoc]
    refine and_congr_right fun _ => ⟨fun hs => ⟨?_, hs⟩, fun hs => hs.2⟩
    by_contra hd
    exact Bool.false_ne_true ((hdot username husername n ((Bool.not_eq_false _).mp hd)).symm.trans hs)
  rw [← hnames, ← hdata, userMentioned]
  by_cases hempty : ((some (setMessageAttribute message)).all fun m => m == "" || m == "0") = true
  · -- nobody is mentioned in a text that is taken for none
    rw [if_pos hempty]
    refine iff_of_false List.not_mem_nil fun hu => ?_
    obtain ⟨-, username, -, n, hn, -⟩ := hdata.mp hu
    have htext : setMessageAttribute message = "" ∨ setMessageAttribute message = "0" := by simpa using hempty
    have hnobody : mentionedUsers (some "") = [] ∧ mentionedUsers (some "0") = [] := by decide +kernel
    rcases htext with he | he
    · rw [he, hnobody.1] at hn
      exact List.not_mem_nil hn
    · rw [he, hnobody.2] at hn
      exact List.not_mem_nil hn
  · rw [if_neg hempty]

/-- The address of somebody else notifies the user whose name its host begins with. -/
theorem mem_userMentioned_address :
    (⟨7, some "example"⟩ : User) ∈ userMentioned (· == ·) [⟨7, some "example"⟩]
      (some (setMessageAttribute (some "bob@example.test"))) := by
  refine (mem_userMentioned (· == ·) [⟨7, some "example"⟩] (some "bob@example.test") ⟨7, some "example"⟩ ?_).mpr
    ⟨by decide, "example", rfl, "example", by decide +kernel, by decide⟩
  intro username husername n hn
  obtain rfl : "example" = username := Option.some.inj husername
  refine beq_eq_false_iff_ne.mpr ?_
  rintro rfl
  exact absurd hn (by decide +kernel)

end Conversation
end Daywright
