/-
# The files of the messages

The file of a message is stored before its row, and deleted after it. If no upload is given
a name that was drawn before, the file that a row names is in the storage as long as the
row is there, and no other row names it (`attachment_kept`): what is deleted with one
message, once or twice, is never the file of another.

Key definitions: `FreshNames`, `Files`, `Keeps`.
Key theorem: `attachment_kept`.
-/
import Daywright.Conversations.Realtime

namespace Daywright
namespace Chat

open Interleave Table

variable {s s' : Store} {p q : Point} {e : Input} {k : Option Point} {tr : List (Step Store Point Input)}
  {c : Config Store Point}

/-- The storage takes the name for what it is. -/
def IsPath (file : String) : Prop := file ≠ "" ∧ ∀ urlPath, Conversation.resolveStoragePath urlPath (some file) = file

theorem isPath_of_store {id : ℕ} {file : UploadedFile} {hashName path : String}
    (h : FileService.store id file hashName = some path) : IsPath path := by
  unfold FileService.store at h
  split at h
  · cases h
  · cases h
    have hlist : ("conversations/" ++ toString id ++ "_" ++ hashName).toList =
        'c' :: ("onversations/" ++ toString id ++ "_" ++ hashName).toList := by simp
    have hne : "conversations/" ++ toString id ++ "_" ++ hashName ≠ "" := by
      intro h
      rw [h] at hlist
      cases hlist
    have hzero : "conversations/" ++ toString id ++ "_" ++ hashName ≠ "0" := by
      intro h
      rw [h] at hlist
      cases hlist
    have hurl : Conversation.isUrl ("conversations/" ++ toString id ++ "_" ++ hashName) = false := by
      rw [Conversation.isUrl, hlist]
      rfl
    refine ⟨hne, fun urlPath => ?_⟩
    simp only [Conversation.resolveStoragePath, hne, hzero, or_self, if_false, hurl, Bool.false_eq_true]

/-- No upload is given a name that was drawn before. -/
def fresh (s : Store) (p : Point) (e : Input) : Bool :=
  match p with
  | .prepareConversationData project _ _ payload =>
    match payload.file with
    | some (.uploaded file) =>
      (FileService.store project file e.hashName).all fun path => !s.log.contains (.uploaded path)
    | _ => true
  | _ => true

def FreshNames (s : Store) (p : Point) (e : Input) : Prop := fresh s p e = true

instance : Decidable (FreshNames s p e) := inferInstanceAs (Decidable (fresh s p e = true))

structure Files (s : Store) : Prop where
  kept : ∀ r ∈ s.conversations, ∀ file, r.file = some file → file ∈ s.files
  uploaded : ∀ row, .stored row ∈ s.log → ∀ file, row.file = some file → .uploaded file ∈ s.log ∧ IsPath file
  one : ∀ row row', .stored row ∈ s.log → .stored row' ∈ s.log → ∀ file, row.file = some file →
    row'.file = some file → row = row'

/-- The file that a process is about to store with its row. -/
def brings : Point → Option String
  | .createConversation _ _ _ data => data.storedFile
  | _ => none

/-- What a process knows of its file. -/
def Keeps (s : Store) : Point → Prop
  | .prepareConversationData _ _ _ payload => payload.storedFile = none
  | .createConversation _ _ _ data => ∀ file, data.storedFile = some file →
    file ∈ s.files ∧ .uploaded file ∈ s.log ∧ IsPath file ∧ ∀ row, .stored row ∈ s.log → row.file ≠ some file
  | .dispatchDeleteConversation row _ | .delete row => ∃ row', .stored row' ∈ s.log ∧ anonymous row = anonymous row'
  | .deleteFileIfExists file _ => ∀ f, file = some f →
    (∃ row, .stored row ∈ s.log ∧ row.file = some f) ∧ ∀ r ∈ s.conversations, r.file ≠ some f
  | _ => True

def NoShare (p q : Point) : Prop := ∀ file, brings p = some file → brings q ≠ some file

theorem storedFile_of_fromArray {message : Option String} {file : Option UploadedFile}
    {payload : CreateConversationData}
    (h : CreateConversationData.fromArray message (file.map .uploaded) = some payload) : payload.storedFile = none := by
  unfold CreateConversationData.fromArray at h
  simp only at h
  split at h
  · cases h
  · cases h
    cases file <;> rfl

/-! ### A step -/

/-- The storage loses a file to a process that deletes it only. -/
theorem Effect.files (h : Effect s p e s') {f : String} (hf : f ∈ s.files) : f ∈ s'.files ∨
    ∃ file deferred, p = .deleteFileIfExists file deferred ∧ Conversation.resolveStoragePath e.urlPath file = f := by
  cases h with
  | uploaded => exact .inl (List.mem_append_left _ hf)
  | erased file deferred hq =>
    by_cases hpath : f = Conversation.resolveStoragePath e.urlPath file
    · exact .inr ⟨file, deferred, hq, hpath.symm⟩
    · exact .inl (List.mem_filter.mpr ⟨hf, bne_iff_ne.mpr hpath⟩)
  | other w _ => cases w <;> exact .inl hf
  | idle | bound | stored | queued | deleting | deleted | sent | opened | read | loaded | loadedMore | failed
  | failedMore | asked | closed | heard | heardEarly | told | toldEarly => exact .inl hf

/-- A row that is stored is new, and has the file that its process brings. -/
theorem Effect.of_stored (h : Effect s p e s') {row : ConversationRow} (hx : .stored row ∈ s'.log) :
    .stored row ∈ s.log ∨ row.id = s.lastId + 1 ∧ ∃ project slug actor data,
      p = .createConversation project slug actor data ∧ row.file = data.storedFile := by
  rcases h.of_mem_log hx with hx | hx
  · exact .inl hx
  · cases hx with
    | stored project slug actor data _ hp hrow _ _ =>
      subst hrow
      exact .inr ⟨rfl, project, slug, actor, data, hp, rfl⟩

/-- Neither the file of a row nor one that is about to get its row is deleted. -/
theorem Files.survives (hF : Files s) (hK : Keeps s p) (h : Effect s p e s') {f : String} (hf : f ∈ s.files)
    (hpath : IsPath f) (hother : ∀ file deferred, p = .deleteFileIfExists file deferred → file ≠ some f) :
    f ∈ s'.files := by
  rcases h.files hf with hf | ⟨file, deferred, hp, hresolve⟩
  · exact hf
  · exfalso
    cases file with
    | none => exact hpath.1 hresolve.symm
    | some f₀ =>
      subst hp
      obtain ⟨⟨row, hrow, hfile⟩, -⟩ := hK f₀ rfl
      have hf₀ := (hF.uploaded row hrow f₀ hfile).2.2 e.urlPath
      rw [hf₀] at hresolve
      exact hother (some f₀) deferred rfl (congrArg some hresolve)

theorem Files.effect (hT : Tables s) (hT' : Tables s') (hF : Files s) (hK : Keeps s p) (h : Effect s p e s') :
    Files s' := by
  constructor
  case kept =>
    intro r' hr' f hf
    rcases h.of_mem_rows hr' with ⟨r, hr, ha⟩ | ⟨hstored, hid⟩
    · rw [file_of_anonymous ha] at hf
      obtain ⟨row, hrow, ha'⟩ := hT.rows r hr
      have hpath := (hF.uploaded row hrow f ((file_of_anonymous ha').symm.trans hf)).2
      refine hF.survives hK h (hF.kept r hr f hf) hpath fun file deferred hp hfile => ?_
      subst hp
      exact (hK f hfile).2 r hr hf
    · rcases h.of_stored hstored with hold | ⟨-, project, slug, actor, data, hp, hfile⟩
      · have hle := hT.stored r' hold
        omega
      · subst hp
        obtain ⟨hmem, -, hpath, -⟩ := hK f (hfile.symm.trans hf)
        exact hF.survives hK h hmem hpath fun file deferred hp => Point.noConfusion hp
  case uploaded =>
    intro row hrow f hf
    rcases h.of_stored hrow with hrow | ⟨-, project, slug, actor, data, hp, hfile⟩
    · obtain ⟨hup, hpath⟩ := hF.uploaded row hrow f hf
      exact ⟨h.mem_log hup, hpath⟩
    · subst hp
      obtain ⟨-, hup, hpath, -⟩ := hK f (hfile.symm.trans hf)
      exact ⟨h.mem_log hup, hpath⟩
  case one =>
    intro row row' hrow hrow' f hf hf'
    rcases h.of_stored hrow with ho | ⟨hid, project, slug, actor, data, hp, hfile⟩
    · rcases h.of_stored hrow' with ho' | ⟨-, project, slug, actor, data, hp, hfile⟩
      · exact hF.one row row' ho ho' f hf hf'
      · subst hp
        obtain ⟨-, -, -, hnone⟩ := hK f (hfile.symm.trans hf')
        exact absurd hf (hnone row ho)
    · subst hp
      rcases h.of_stored hrow' with ho' | ⟨hid', -⟩
      · obtain ⟨-, -, -, hnone⟩ := hK f (hfile.symm.trans hf)
        exact absurd hf' (hnone row' ho')
      · exact hT'.unique row row' hrow hrow' (hid.trans hid'.symm)

/-- A file whose row is gone stays without one. -/
theorem Keeps.gone (hT : Tables s) (hK : Keeps s p) (h : Effect s p e s') {f : String}
    (hrow : ∃ row, .stored row ∈ s.log ∧ row.file = some f) (hno : ∀ r ∈ s.conversations, r.file ≠ some f) :
    (∃ row, .stored row ∈ s'.log ∧ row.file = some f) ∧ ∀ r ∈ s'.conversations, r.file ≠ some f := by
  obtain ⟨row, hrow, hfile⟩ := hrow
  refine ⟨⟨row, h.mem_log hrow, hfile⟩, fun r' hr' hf => ?_⟩
  rcases h.of_mem_rows hr' with ⟨r, hr, ha⟩ | ⟨hstored, hid⟩
  · exact hno r hr ((file_of_anonymous ha).symm.trans hf)
  · rcases h.of_stored hstored with hold | ⟨-, project, slug, actor, data, hp, hdata⟩
    · have hle := hT.stored r' hold
      omega
    · subst hp
      obtain ⟨-, -, -, hnone⟩ := hK f (hdata.symm.trans hf)
      exact hnone row hrow hfile

theorem Keeps.frame (hT : Tables s) (hF : Files s) (hK : Keeps s p) (h : Effect s p e s') (hpq : NoShare p q)
    (hq : Keeps s q) : Keeps s' q := by
  cases q with
  | prepareConversationData => exact hq
  | createConversation project slug actor data =>
    intro f hf
    obtain ⟨hmem, hup, hpath, hnone⟩ := hq f hf
    refine ⟨hF.survives hK h hmem hpath fun file deferred hp hfile => ?_, h.mem_log hup, hpath,
      fun row hrow hfile => ?_⟩
    · subst hp
      obtain ⟨⟨row, hrow, hf'⟩, -⟩ := hK f hfile
      exact hnone row hrow hf'
    · rcases h.of_stored hrow with hrow | ⟨-, project', slug', actor', data', hp, hdata⟩
      · exact hnone row hrow hfile
      · subst hp
        exact hpq f (hdata.symm.trans hfile) hf
  | dispatchDeleteConversation row slug | delete row =>
    obtain ⟨row', hrow', ha⟩ := hq
    exact ⟨row', h.mem_log hrow', ha⟩
  | deleteFileIfExists file deferred =>
    intro f hf
    obtain ⟨hrow, hno⟩ := hq f hf
    exact hK.gone hT h hrow hno
  | _ => trivial

theorem notMem_of_fresh {project : ℕ} {slug path : String} {actor : ℕ} {payload : CreateConversationData}
    {file : UploadedFile} (hok : FreshNames s (.prepareConversationData project slug actor payload) e)
    (hf : payload.file = some (.uploaded file)) (hpath : FileService.store project file e.hashName = some path) :
    .uploaded path ∉ s.log := by
  have h : (!s.log.contains (.uploaded path)) = true := by simpa [FreshNames, fresh, hf, hpath] using hok
  simpa using h

theorem Keeps.next (hT : Tables s) (hF : Files s) (hK : Keeps s p) (hok : FreshNames s p e) (h : Effect s p e s')
    (hq : Continues s p e s' q) : Keeps s' q := by
  cases hq with
  | prepare slug project actor message file payload hpayload _ => exact storedFile_of_fromArray hpayload
  | uploaded project slug actor payload file path hp hf hpath hs =>
    subst hp hs
    intro f hdata
    cases hdata
    have hnew := notMem_of_fresh hok hf hpath
    refine ⟨List.mem_append_right _ (List.mem_singleton_self _), List.mem_append_right _ (List.mem_singleton_self _),
      isPath_of_store hpath, fun row hrow hfile => ?_⟩
    have hrow := (List.mem_append.mp hrow).resolve_right (by simp)
    exact hnew (hF.uploaded row hrow path hfile).1
  | plain project slug actor payload hp _ hs =>
    subst hp
    intro f hdata
    rw [hK] at hdata
    cases hdata
  | dispatch row slug hrow =>
    obtain ⟨row', hrow', ha⟩ := hT.rows row hrow
    exact ⟨row', h.mem_log hrow', ha⟩
  | delete row slug hp _ =>
    subst hp
    obtain ⟨row', hrow', ha⟩ := hK
    exact ⟨row', h.mem_log hrow', ha⟩
  | erase row hp hrows =>
    subst hp
    obtain ⟨row', hrow', ha⟩ := hK
    intro f hf
    have hf' := (file_of_anonymous ha).symm.trans hf
    refine ⟨⟨row', h.mem_log hrow', hf'⟩, fun r hr hfile => ?_⟩
    rw [hrows] at hr
    obtain ⟨hr, hne⟩ := List.mem_filter.mp hr
    obtain ⟨row'', hrow'', ha''⟩ := hT.rows r hr
    have heq := hF.one row'' row' hrow'' hrow' f ((file_of_anonymous ha'').symm.trans hfile) hf'
    have hid : r.id = row.id := by rw [id_of_anonymous ha'', heq, id_of_anonymous ha]
    exact bne_iff_ne.mp hne hid
  | again file hp =>
    subst hp
    intro f hf
    obtain ⟨hrow, hno⟩ := hK f hf
    exact Keeps.gone hT hK h hrow hno
  | announce | load | read | refuse | respond | loadMore => trivial

theorem Keeps.brings (hK : Keeps s q) {f : String} (h : brings q = some f) : .uploaded f ∈ s.log := by
  cases q with
  | createConversation project slug actor data => exact (hK f h).2.1
  | _ => cases h

theorem noShare_next (hK : Keeps s p) (hq : Keeps s q) (hok : FreshNames s p e) {r : Point}
    (hr : Continues s p e s' r) : NoShare r q := by
  intro f hf hfq
  have hup := hq.brings hfq
  cases hr with
  | uploaded project slug actor payload file path hp hfile hpath _ =>
    subst hp
    cases hf
    exact notMem_of_fresh hok hfile hpath hup
  | plain project slug actor payload hp _ _ =>
    subst hp
    have hnone : payload.storedFile = some f := hf
    rw [hK] at hnone
    cases hnone
  | _ => cases hf

/-! ### Runs -/

theorem filesOutline : ApartOutline (program.restrict FreshNames) (fun s => Inv s ∧ Files s)
    (fun s p => Progress s p ∧ Keeps s p) fun p q => Alone p q ∧ NoShare p q := by
  refine outline.strengthen (fun p q h f hq hp => h f hp hq) (fun s p _ _ hp => ?_) (fun s p q _ _ hp _ _ => ?_)
    (fun s p e s' k hI hF hA hK hok h => ?_) (fun s p e s' p' q hI hF hA hK hAq hKq _ _ hok h => ?_)
    fun s p e s' k q hI hF hA hK hAq hKq _ hpq hok h => ?_
  · cases p <;> trivial
  · intro f hf
    cases p <;> first | cases hf | cases hp
  · have hI' := (outline.move s p e s' k hI hA h).1
    obtain ⟨rfl, rfl⟩ := moved h
    exact ⟨hF.effect hI.tables hI'.tables hK act_effect,
      fun q hq => hK.next hI.tables hF hok act_effect (act_continues hq)⟩
  · obtain ⟨-, hp'⟩ := moved h
    exact noShare_next hK hKq hok (act_continues hp'.symm)
  · obtain ⟨rfl, -⟩ := moved h
    exact hK.frame hI.tables hF act_effect hpq hKq

theorem files_of_run (h : program.Run start tr c) (hok : ∀ st ∈ tr, st.Meets FreshNames) : Files c.store := by
  have none {α : Type} {x : α} {P : Prop} (h : x ∈ ([] : List α)) : P := absurd h List.not_mem_nil
  have hF : Files start.store := ⟨fun _ => none, fun _ => none, fun _ _ => none⟩
  exact (filesOutline.run ⟨⟨start_holds.1, hF⟩, fun _ => none⟩ Apart.nil (h.restrict hok)).1.1.2

theorem attachment_kept (h : program.Run start tr c) (hok : ∀ st ∈ tr, st.Meets FreshNames) {r : ConversationRow}
    (hr : r ∈ c.store.conversations) {file : String} (hf : r.file = some file) :
    file ∈ c.store.files ∧ ∀ r' ∈ c.store.conversations, r'.file = some file → r' = r := by
  have hT := (inv_of_run h).1.1.tables
  have hF := files_of_run h hok
  refine ⟨hF.kept r hr file hf, fun r' hr' hf' => ?_⟩
  obtain ⟨row, hrow, ha⟩ := hT.rows r hr
  obtain ⟨row', hrow', ha'⟩ := hT.rows r' hr'
  have heq : row' = row := hF.one row' row hrow' hrow file ((file_of_anonymous ha').symm.trans hf')
    ((file_of_anonymous ha).symm.trans hf)
  have hid : r'.id = r.id := by rw [id_of_anonymous ha', heq, id_of_anonymous ha]
  exact List.inj_on_of_nodup_map hT.ids hr' hr hid

namespace Sample

/-- A message with an upload, under the name that is drawn. -/
def upload (hashName : String) : List (Act Point Input) :=
  .arrive (.storeConversation "alpha" 7 none (some ⟨true, 1⟩)) ::
    List.replicate 4 (.move 0 { fine with hashName := hashName })

end Sample

/-- Of two messages with their files, the first is deleted. -/
theorem attachment_kept_deleted : ∃ tr c r, program.Run start tr c ∧ (∀ st ∈ tr, st.Meets FreshNames) ∧
    c.store.lastId = 2 ∧ c.store.conversations = [r] ∧ r.file = some "conversations/1_b" ∧
    "conversations/1_b" ∈ c.store.files ∧
    ∀ r' ∈ c.store.conversations, r'.file = some "conversations/1_b" → r' = r := by
  obtain ⟨tr, c, h, hq⟩ := program.exists_run_of_replay
    (Sample.runs (.other (.setProject "alpha" (some 1))) 0 1 ++ Sample.upload "a" ++ Sample.upload "b" ++
      Sample.destroy 1) (c := start)
    (q := fun tr c => c.store.conversations == [⟨2, 1, some 7, none, some "conversations/1_b", 5⟩] &&
      c.store.lastId == 2 && tr.all fun st => decide (st.Meets FreshNames)) (by decide +kernel)
  simp only [Bool.and_eq_true, beq_iff_eq, List.all_eq_true, decide_eq_true_eq] at hq
  obtain ⟨⟨hrows, hlast⟩, hok⟩ := hq
  have hr : _ ∈ c.store.conversations := hrows ▸ List.mem_singleton_self _
  exact ⟨tr, c, _, h, hok, hlast, hrows, rfl, attachment_kept h hok hr rfl⟩

end Chat
end Daywright
