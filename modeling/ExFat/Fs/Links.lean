import ExFat.Fs.Calls
import ExFat.Fs.Create

namespace ExFat

open Program

/-!
# What reading and writing leaves of the tree

A node is placed in the tree by its links: the node above it, the nodes below it and beside it, the
references to it, and the two marks that say whether its children have been read and whether it has
been taken out.  Whatever is read from a directory or written to it, the links of the nodes stay;
only attaching, detaching, making and freeing nodes and counting references change them.
-/

variable {δ : Type} {α : Type}

/-! ### One node -/

/-- A view of a node that does not show its contents. -/
class Aloof {κ : Type} (π : Node → κ) : Prop where
  data : ∀ {n n' : Node}, n.SameLinks n' → π n' = π n

/-- The fields of a node that place it in the tree. -/
structure Links where
  parent : Option NodeId
  child : List NodeId
  first : Option NodeId
  next : Option NodeId
  prev : Option NodeId
  references : Int
  isCached : Bool
  isUnlinked : Bool

/-- The links of a node. -/
def Node.links (n : Node) : Links :=
  ⟨n.parent, n.child, n.first, n.next, n.prev, n.references, n.isCached, n.isUnlinked⟩

/-- The links are the same. -/
theorem Node.SameLinks.links {n n' : Node} (h : n.SameLinks n') : n'.links = n.links := by
  unfold Node.SameLinks at h
  rw [h]
  rfl

instance : Aloof Node.links := ⟨Node.SameLinks.links⟩

/-- The volume still has the upcase table it had. -/
def Ef.Settled (ef ef' : Ef δ) : Prop := ∀ u, ef.upcase = some u → ef'.upcase = some u

instance : IsPreorder (Ef δ) Ef.Settled where
  refl _ _ hu := hu
  trans _ _ _ h h' u hu := h' u (h u hu)

/-- The node looks as it did. -/
structure FileState.SameBy {κ : Type} (π : Node → κ) (s s' : FileState δ) : Prop where
  view : π s'.node = π s.node
  upcase : s.ef.Settled s'.ef

/-- The node is where it was. -/
abbrev FileState.SameLinks (s s' : FileState δ) : Prop := s.SameBy Node.links s'

variable {κ : Type} {π : Node → κ}

instance : IsPreorder (FileState δ) (FileState.SameBy π) where
  refl _ := ⟨rfl, refl_of Ef.Settled _⟩
  trans _ _ _ h h' := ⟨h'.view.trans h.view, trans_of Ef.Settled h.upcase h'.upcase⟩

/-- What stays the same twice stays the same. -/
theorem FileState.SameBy.trans {s s' s'' : FileState δ} (h : s.SameBy π s') (h' : s'.SameBy π s'') :
    s.SameBy π s'' := trans_of (FileState.SameBy π) h h'

instance [Aloof π] [Device δ] : MoveRel (δ := δ) (FileState.SameBy π) where
  call _ := ⟨rfl, fun _ hu => hu⟩
  report _ := ⟨rfl, fun _ hu => hu⟩
  cursor _ _ _ := ⟨Aloof.data rfl, fun _ hu => hu⟩
  valid _ _ := ⟨Aloof.data rfl, fun _ hu => hu⟩
  tick _ := ⟨rfl, fun _ hu => hu⟩
  bits _ _ _ := ⟨rfl, fun _ hu => hu⟩
  data _ _ h := ⟨Aloof.data h, fun _ hu => hu⟩

/-- A routine of the volume that leaves an upcase table alone. -/
class Calm (m : EfM δ α) : Prop where
  keeps : Keeps Ef.Settled m

/-- A routine on the volume leaves the node alone. -/
theorem links_onEf (m : EfM δ α) [Calm m] : Keeps (FileState.SameBy π) (onEf m) :=
  keeps_zoom (Calm.keeps (m := m)) fun _ _ h => ⟨rfl, h⟩

/-- A change of what is not seen leaves the node as it is seen. -/
theorem links_modifyNode {f : Node → Node} (h : ∀ n, π (f n) = π n) :
    Keeps (FileState.SameBy π) (modifyNode (δ := δ) f) := fun s => ⟨h s.node, fun _ hu => hu⟩

/-- A routine on another node leaves this one alone. -/
theorem links_withNode {node : Node} {m : FileM δ α} (hm : Keeps (FileState.SameBy π) m)
    (ef : Ef δ) : wp (withNode node m) (fun r _ => π r.2 = π node) anyStop ef := by
  have hrun := hm ⟨ef, node⟩
  unfold wp withNode at *
  cases hm : m ⟨ef, node⟩ with
  | ok a s =>
    rw [hm] at hrun
    exact hrun.view
  | error e s => exact trivial

/-! ### The upcase table -/

/-- Assigning to other fields of the volume. -/
theorem calm_modify {f : Ef δ → Ef δ} (h : ∀ ef, (f ef).upcase = ef.upcase) :
    Keeps Ef.Settled (modify f : EfM δ PUnit) := fun ef _ hu => (h ef).trans hu

instance (label : List UInt8) : Calm (δ := δ) (modify fun ef => { ef with label := label }) :=
  ⟨calm_modify fun _ => rfl⟩

instance (message : String) : Calm (exfatError (δ := δ) message) := ⟨calm_modify fun _ => rfl⟩

instance : Calm (timeNow (δ := δ)) := ⟨fun _ _ hu => hu⟩

instance : Calm (mallocOk (δ := δ)) := ⟨fun _ _ hu => hu⟩

instance (n : Node) : Calm (exfatGetName (δ := δ) n) := by
  refine ⟨?_⟩
  unfold exfatGetName
  cases nameUtf8 n.name with
  | ok name => exact keeps_pure _
  | error e => exact keeps_throw _

instance : Calm (exfatAskToFix (δ := δ)) := by
  refine ⟨fun ef => ?_⟩
  unfold exfatAskToFix
  rw [wp_bind, wp_get]
  cases ef.repair with
  | no => exact refl_of Ef.Settled ef
  | yes => exact refl_of Ef.Settled ef
  | ask => exact fun _ hu => hu

instance : Calm (exfatErrorsFixedBump (δ := δ)) := ⟨calm_modify fun _ => rfl⟩

instance (entries : List Entry) : Calm (checkEntries (δ := δ) entries) :=
  ⟨keeps_ite (keeps_pure _) (keeps_bind (Calm.keeps (m := exfatError _)) fun _ => keeps_pure _)⟩

instance : Calm (allocateNode (δ := δ)) := by
  refine ⟨keeps_bind (Calm.keeps (m := mallocOk)) fun ok => keeps_ite (keeps_pure _) ?_⟩
  exact keeps_bind (Calm.keeps (m := exfatError _)) fun _ => keeps_pure _

instance (date time centisec tzoffset : Nat) :
    Calm (readTime (δ := δ) date time centisec tzoffset) := by
  refine ⟨keeps_look fun ef => ?_⟩
  cases exfat2unix ef.timezone date time centisec tzoffset with
  | some t => exact keeps_pure _
  | none => exact keeps_bind (Calm.keeps (m := exfatError _)) fun _ => keeps_pure _

instance (cluster : Nat) : Calm (exfatC2o (δ := δ) cluster) :=
  ⟨keeps_look fun _ => keeps_ite (keeps_throw _) (keeps_pure _)⟩

/-- A routine on another node leaves the upcase table alone. -/
theorem calm_withNode {node : Node} {m : FileM δ α} (hm : Keeps (FileState.SameBy π) m) :
    Keeps Ef.Settled (withNode node m) := by
  intro ef
  have hrun := hm ⟨ef, node⟩
  unfold wp withNode at *
  cases hm : m ⟨ef, node⟩ with
  | ok a s =>
    rw [hm] at hrun
    exact hrun.upcase
  | error e s =>
    rw [hm] at hrun
    exact hrun.upcase

section Scan

variable [Device δ]

instance (size offset : Nat) : Calm (exfatPread (δ := δ) size offset) := ⟨fun _ _ hu => hu⟩

instance (data : List UInt8) (offset : Nat) : Calm (exfatPwrite (δ := δ) data offset) :=
  ⟨fun _ _ hu => hu⟩

instance : Calm (exfatFsync (δ := δ)) := ⟨fun _ _ hu => hu⟩

instance : Calm (exfatFlush (δ := δ)) := by
  refine ⟨keeps_look fun ef => keeps_ite ?_ (keeps_pure _)⟩
  refine keeps_bind (Calm.keeps (m := exfatC2o _)) fun offset => ?_
  refine keeps_bind (Calm.keeps (m := exfatPwrite _ _)) fun r => ?_
  cases r with
  | none => exact keeps_bind (Calm.keeps (m := exfatError _)) fun _ => keeps_pure _
  | some _ => exact keeps_bind (calm_modify fun _ => rfl) fun _ => keeps_pure _

/-- Only a volume without an upcase table gets one. -/
instance (entry : Entry) : Calm (readUpcase (δ := δ) entry) := by
  refine ⟨fun ef => ?_⟩
  unfold readUpcase
  rw [wp_bind, wp_get]
  cases hu : ef.upcase with
  | some u => exact refl_of Ef.Settled ef
  | none =>
    refine wp_of_forall (fun _ _ u h => ?_) fun _ _ u h => ?_
    · cases hu.symm.trans h
    · cases hu.symm.trans h

instance (entry : Entry) : Calm (readBitmap (δ := δ) entry) := by
  refine ⟨keeps_bind (calm_modify fun _ => rfl) fun _ => keeps_look fun ef => keeps_ite ?_ ?_⟩
  · exact keeps_bind (Calm.keeps (m := exfatError _)) fun _ => keeps_pure _
  refine keeps_bind (calm_modify fun _ => rfl) fun _ => keeps_ite ?_ ?_
  · exact keeps_bind (Calm.keeps (m := exfatError _)) fun _ => keeps_pure _
  refine keeps_bind (calm_modify fun _ => rfl) fun _ => ?_
  refine keeps_bind (Calm.keeps (m := mallocOk)) fun ok => keeps_ite ?_ ?_
  · refine keeps_bind (calm_modify fun _ => rfl) fun _ => ?_
    exact keeps_bind (Calm.keeps (m := exfatError _)) fun _ => keeps_pure _
  refine keeps_bind (calm_modify fun _ => rfl) fun _ => ?_
  refine keeps_bind (Calm.keeps (m := exfatC2o _)) fun offset => ?_
  refine keeps_bind (Calm.keeps (m := exfatPread _ _)) fun r => ?_
  cases r with
  | none => exact keeps_bind (Calm.keeps (m := exfatError _)) fun _ => keeps_pure _
  | some bytes => exact keeps_bind (calm_modify fun _ => rfl) fun _ => keeps_pure _

omit [Device δ] in
/-- `read_label` leaves the upcase table alone. -/
theorem calm_readLabel (entry : Entry) : Keeps Ef.Settled (readLabel (δ := δ) entry) := by
  refine keeps_ite (keeps_bind (Calm.keeps (m := exfatError _)) fun _ => keeps_pure _) ?_
  cases exfatUtf16ToUtf8 entry.units utf8EnameBufferMax with
  | error e => exact keeps_bind (calm_modify fun _ => rfl) fun _ => keeps_pure _
  | ok label => exact keeps_bind (calm_modify fun _ => rfl) fun _ => keeps_pure _

instance (entry : Entry) : Calm (readLabel (δ := δ) entry) := ⟨calm_readLabel entry⟩

variable [Aloof π]

/-- `read_entries` leaves the node as it is seen. -/
theorem links_readEntries (n : Nat) (offset : Int) :
    Keeps (FileState.SameBy π) (readEntries (δ := δ) n offset) := by
  refine keeps_look fun s => keeps_ite (keeps_throw _) ?_
  refine keeps_bind (keeps_exfatGenericPread _ _) fun r => ?_
  cases r with
  | error e => exact keeps_pure _
  | ok r =>
    refine keeps_ite (keeps_pure _) (keeps_ite (keeps_pure _) ?_)
    exact keeps_bind (links_onEf _) fun _ => keeps_pure _

/-- `write_entries` leaves the node as it is seen. -/
theorem links_writeEntries (entries : List Entry) (offset : Int) :
    Keeps (FileState.SameBy π) (writeEntries (δ := δ) entries offset) := by
  refine keeps_look fun s => keeps_ite (keeps_throw _) ?_
  refine keeps_bind (keeps_exfatGenericPwrite _ _) fun r => ?_
  cases r with
  | error e => exact keeps_pure _
  | ok size => exact keeps_ite (keeps_pure _) (keeps_bind (links_onEf _) fun _ => keeps_pure _)

/-- `erase_entries` leaves the node as it is seen. -/
theorem links_eraseEntries (n : Nat) (offset : Int) :
    Keeps (FileState.SameBy π) (eraseEntries (δ := δ) n offset) := by
  refine keeps_bind (links_readEntries _ _) fun r => ?_
  cases r with
  | error e => exact keeps_pure _
  | ok entries => exact links_writeEntries _ _

/-! ### A node made of entries -/

omit [Device δ] in
/-- `checkNodeRule` leaves the node as it is seen. -/
theorem links_checkNodeRule (bad : Bool) (message : String) :
    Keeps FileState.SameLinks (checkNodeRule (δ := δ) bad message) := by
  refine keeps_look fun s => keeps_ite ?_ (keeps_pure _)
  refine keeps_bind (links_onEf _) fun _ => keeps_bind (links_onEf _) fun _ => keeps_pure _

omit [Device δ] in
/-- `checkNodeChecksum` leaves the node as it is seen. -/
theorem links_checkNodeChecksum (actual stored : Nat) :
    Keeps FileState.SameLinks (checkNodeChecksum (δ := δ) actual stored) := by
  refine keeps_look fun s => keeps_ite ?_ (keeps_pure _)
  refine keeps_bind (links_onEf _) fun _ => keeps_bind (links_onEf _) fun _ => ?_
  refine keeps_bind (links_onEf _) fun fix => keeps_ite ?_ (keeps_pure _)
  refine keeps_bind (links_modifyNode fun _ => rfl) fun _ => ?_
  exact keeps_bind (links_onEf _) fun _ => keeps_pure _

omit [Device δ] in
/-- `check_node` leaves the node as it is seen. -/
theorem links_checkNode (actual stored : Nat) :
    Keeps FileState.SameLinks (checkNode (δ := δ) actual stored) := by
  refine keeps_look fun s => keeps_bind (links_checkNodeChecksum _ _) fun _ => ?_
  refine keeps_bind (links_checkNodeRule _ _) fun _ => ?_
  refine keeps_bind (links_checkNodeRule _ _) fun _ => ?_
  refine keeps_bind (links_checkNodeRule _ _) fun _ => ?_
  refine keeps_bind (links_checkNodeRule _ _) fun _ => ?_
  refine keeps_bind (links_checkNodeRule _ _) fun _ => ?_
  refine keeps_bind (links_checkNodeRule _ _) fun _ => ?_
  exact keeps_pure _

omit [Device δ] in
/-- `init_node_meta1` leaves the node as it is seen. -/
theorem links_initNodeMeta1 (meta1 : Entry) :
    Keeps FileState.SameLinks (initNodeMeta1 (δ := δ) meta1) := by
  refine keeps_bind (links_modifyNode fun _ => rfl) fun _ => keeps_bind (links_onEf _) fun _ => ?_
  refine keeps_bind (links_modifyNode fun _ => rfl) fun _ => keeps_bind (links_onEf _) fun _ => ?_
  exact links_modifyNode fun _ => rfl

omit [Device δ] in
/-- `init_node_meta2` leaves the node as it is seen. -/
theorem links_initNodeMeta2 (meta2 : Entry) :
    Keeps FileState.SameLinks (initNodeMeta2 (δ := δ) meta2) := links_modifyNode fun _ => rfl

omit [Device δ] in
/-- `parse_file_entries` leaves the node as it is seen. -/
theorem links_parseFileEntries (entries : List Entry) :
    Keeps FileState.SameLinks (parseFileEntries (δ := δ) entries) := by
  refine keeps_bind (links_onEf _) fun ok => keeps_ite (keeps_pure _) (keeps_ite ?_ ?_)
  · exact keeps_bind (links_onEf _) fun _ => keeps_pure _
  refine keeps_ite ?_ (keeps_ite ?_ ?_)
  · exact keeps_bind (links_onEf _) fun _ => keeps_pure _
  · exact keeps_bind (links_onEf _) fun _ => keeps_pure _
  refine keeps_bind (links_initNodeMeta1 _) fun _ => keeps_bind (links_initNodeMeta2 _) fun _ => ?_
  refine keeps_bind (links_modifyNode fun _ => rfl) fun _ => ?_
  exact keeps_bind (links_checkNode _ _) fun ok => keeps_ite (keeps_pure _) (keeps_pure _)

/-- The links of a node that is in no tree and that nothing refers to. -/
def Links.loose : Links := ⟨none, [], none, none, none, 0, false, false⟩

/-- A node that has been parsed is in no directory. -/
theorem loose_parseFileEntry (offset n : Nat) (s : FileState δ) :
    wp (parseFileEntry offset n)
      (fun r s' => s.SameBy π s' ∧ ∀ node, r = .ok node → node.links = .loose) anyStop s := by
  unfold parseFileEntry
  rw [wp_bind]
  refine wp_mono (links_readEntries (π := π) _ _ s) ?_ (fun _ _ _ => trivial)
  intro r s₁ h₁
  cases r with
  | error e => exact ⟨h₁, fun _ hr => by cases hr⟩
  | ok entries =>
    dsimp only
    rw [wp_bind]
    refine wp_mono (links_onEf (π := π) _ s₁) ?_ (fun _ _ _ => trivial)
    intro ok s₂ h₂
    have h₁₂ := h₁.trans h₂
    split
    -- the set is refused before the node is filled
    · exact ⟨h₁₂, fun _ hr => by cases hr⟩
    · rw [wp_bind]
      unfold onEf
      rw [wp_zoom]
      -- The parser writes names, times and sizes; the links of the fresh node stay as they were
      -- made.
      have hparse := links_parseFileEntries (δ := δ) entries
      refine wp_mono (wp_and (links_withNode hparse s₂.ef) (calm_withNode hparse s₂.ef)) ?_
        (fun _ _ _ => trivial)
      rintro r ef ⟨hr, hef⟩
      have h₃ : s.SameBy π { s₂ with ef := ef } := h₁₂.trans ⟨rfl, hef⟩
      cases r.1 with
      | error e => exact ⟨h₃, fun _ hr => by cases hr⟩
      | ok _ =>
        refine ⟨h₃, ?_⟩
        intro node hnode
        cases hnode
        exact hr

/-! ### Scanning a directory -/

/-- `exfat_fix_unknown_entry` leaves the node as it is seen. -/
theorem links_exfatFixUnknownEntry (entry : Entry) (offset : Int) :
    Keeps (FileState.SameBy π) (exfatFixUnknownEntry (δ := δ) entry offset) := by
  refine keeps_bind (keeps_exfatGenericPwrite _ _) fun r => ?_
  cases r with
  | error e => exact keeps_pure _
  | ok size => exact keeps_ite (keeps_pure _) (keeps_bind (links_onEf _) fun _ => keeps_pure _)

/-- `readUnknown` leaves the node as it is seen. -/
theorem links_readUnknown (entry : Entry) (offset : Int) :
    Keeps (FileState.SameBy π) (readUnknown (δ := δ) entry offset) := by
  refine keeps_ite (keeps_pure _) (keeps_bind (links_onEf _) fun _ => ?_)
  refine keeps_bind (links_onEf _) fun fix => keeps_ite ?_ (keeps_pure _)
  refine keeps_bind (links_exfatFixUnknownEntry _ _) fun fixed => ?_
  exact keeps_ite (keeps_pure _) (keeps_pure _)

/-- `skipEntry` leaves the node as it is seen. -/
theorem links_skipEntry (entry : Entry) (offset : Int) :
    Keeps (FileState.SameBy π) (skipEntry (δ := δ) entry offset) :=
  keeps_ite (links_onEf _) (keeps_ite (links_onEf _) (keeps_ite (links_onEf _)
    (links_readUnknown _ _)))

/-- A node that has been read is in no directory. -/
theorem loose_readdirLoop (fuel offset : Nat) (s : FileState δ) :
    wp (readdirLoop fuel offset)
      (fun r s' => s.SameBy π s' ∧ ∀ x, r = .ok x → x.1.links = .loose) anyStop s := by
  -- On the entries that are left.  Only a file entry ends the loop with a node.
  induction fuel generalizing offset s with
  | zero => exact trivial
  | succ fuel ih =>
    unfold readdirLoop
    rw [wp_bind]
    refine wp_mono (links_readEntries (π := π) _ _ s) ?_ (fun _ _ _ => trivial)
    intro r s₁ h₁
    cases r with
    | error e => exact ⟨h₁, fun _ hr => by cases hr⟩
    | ok entries =>
      dsimp only
      split
      · rw [wp_bind]
        refine wp_mono (loose_parseFileEntry (π := π) _ _ s₁) ?_ (fun _ _ _ => trivial)
        rintro r s₂ ⟨h₂, hloose⟩
        cases r with
        | error e => exact ⟨h₁.trans h₂, fun _ hr => by cases hr⟩
        | ok node =>
          refine ⟨h₁.trans h₂, ?_⟩
          intro x hx
          cases hx
          exact hloose node rfl
      -- any other entry is skipped, and the loop goes on
      · rw [wp_bind]
        refine wp_mono (links_skipEntry (π := π) _ _ s₁) ?_ (fun _ _ _ => trivial)
        intro r s₂ h₂
        cases r with
        | error e => exact ⟨h₁.trans h₂, fun _ hr => by cases hr⟩
        | ok _ =>
          refine wp_mono (ih _ s₂) ?_ (fun _ _ _ => trivial)
          rintro r s₃ ⟨h₃, hloose⟩
          exact ⟨(h₁.trans h₂).trans h₃, hloose⟩

/-- The nodes that have been read are in no directory. -/
theorem loose_cacheLoop (fuel offset : Nat) (s : FileState δ) :
    wp (cacheLoop fuel offset) (fun r s' => s.SameBy π s' ∧ ∀ n ∈ r.1, n.links = .loose)
    anyStop s := by
  induction fuel generalizing offset s with
  | zero => exact trivial
  | succ fuel ih =>
    unfold cacheLoop
    rw [wp_bind, wp_get, wp_bind]
    refine wp_mono (loose_readdirLoop (π := π) _ _ s) ?_ (fun _ _ _ => trivial)
    rintro r s₁ ⟨h₁, hloose⟩
    cases r with
    | error e => exact ⟨h₁, fun _ hn => by cases hn⟩
    | ok x =>
      obtain ⟨node, next⟩ := x
      dsimp only
      rw [wp_bind]
      refine wp_mono (ih _ s₁) ?_ (fun _ _ _ => trivial)
      rintro r s₂ ⟨h₂, hrest⟩
      refine ⟨h₁.trans h₂, ?_⟩
      intro n hn
      rcases List.mem_cons.1 hn with rfl | hn
      · exact hloose _ rfl
      · exact hrest n hn

end Scan

/-! ### The volume -/

/-- The nodes in memory, as the view shows them. -/
def Volume.view (π : Node → κ) (t : Volume δ) (i : NodeId) : Option κ := (t.heap i).map π

/-- The same nodes are in memory, and they look as they did. -/
structure Volume.SameBy (π : Node → κ) (t t' : Volume δ) : Prop where
  root : t'.root = t.root
  fresh : t'.fresh = t.fresh
  view : t'.view π = t.view π
  upcase : t.ef.Settled t'.ef

/-- The same nodes are in memory, at the same places. -/
abbrev Volume.SameLinks (t t' : Volume δ) : Prop := t.SameBy Node.links t'

instance : IsPreorder (Volume δ) (Volume.SameBy π) where
  refl _ := ⟨rfl, rfl, rfl, refl_of Ef.Settled _⟩
  trans _ _ _ h h' := ⟨h'.root.trans h.root, h'.fresh.trans h.fresh, h'.view.trans h.view,
    trans_of Ef.Settled h.upcase h'.upcase⟩

/-- Storing a node that looks the same. -/
theorem links_store {t : Volume δ} {i : NodeId} {n : Node} (hi : t.heap i = some n)
    {s : FileState δ} (hs : FileState.SameBy π ⟨t.ef, n⟩ s) : t.SameBy π (t.store i s) := by
  refine ⟨rfl, rfl, ?_, hs.upcase⟩
  funext j
  unfold Volume.view Volume.store
  by_cases hj : j = i
  · subst hj
    simp [hi, hs.view]
  · simp [Function.update_of_ne hj]

/-- A routine on a node that leaves it as it is seen. -/
theorem links_onNode (i : NodeId) {m : FileM δ α} (hm : Keeps (FileState.SameBy π) m) :
    Keeps (Volume.SameBy π) (onNode i m) := by
  intro t
  unfold wp onNode
  cases hi : t.heap i with
  | none => exact refl_of (Volume.SameBy π) t
  | some n =>
    have hrun := hm ⟨t.ef, n⟩
    unfold wp at hrun
    dsimp only
    cases hmr : m ⟨t.ef, n⟩ with
    | ok a s =>
      rw [hmr] at hrun
      exact links_store hi hrun
    | error e s =>
      rw [hmr] at hrun
      exact links_store hi hrun

/-- A change of what is not seen leaves the nodes as they are seen. -/
theorem links_updateNode (i : NodeId) {f : Node → Node} (h : ∀ n, π (f n) = π n) :
    Keeps (Volume.SameBy π) (updateNode (δ := δ) i f) := links_onNode i (links_modifyNode h)

/-- A routine on the volume leaves the nodes alone. -/
theorem links_onVolume (m : EfM δ α) [Calm m] : Keeps (Volume.SameBy π) (onVolume m) :=
  keeps_zoom (Calm.keeps (m := m)) fun _ _ h => ⟨rfl, rfl, rfl, h⟩

/-- Looking at a node: it is in memory, or the run ends. -/
theorem wp_getNode {i : NodeId} {t : Volume δ} {Q : Node → Volume δ → Prop}
    {E : Halt → Volume δ → Prop} (hE : E .fault t) (h : ∀ n, t.heap i = some n → Q n t) :
    wp (getNode i) Q E t := by
  unfold wp getNode
  cases hi : t.heap i with
  | none => exact hE
  | some n => exact h n hi

/-- Nothing has changed. -/
def Volume.Same (t t' : Volume δ) : Prop := t' = t

instance : IsPreorder (Volume δ) Volume.Same where
  refl _ := rfl
  trans _ _ _ h h' := Eq.trans h' h

/-- `getNode` changes nothing. -/
theorem same_getNode (i : NodeId) : Keeps Volume.Same (getNode (δ := δ) i) := fun _ =>
  wp_getNode rfl fun _ _ => rfl

/-- A routine that changes nothing on the volume changes nothing. -/
theorem same_onVolume {m : EfM δ α} (hm : ∀ ef, (∃ a, m ef = .ok a ef) ∨ ∃ e, m ef = .error e ef) :
    Keeps Volume.Same (onVolume m) := by
  intro t
  unfold onVolume
  rw [wp_zoom]
  unfold wp
  obtain ⟨a, ha⟩ | ⟨e, he⟩ := hm t.ef
  · rw [ha]
    rfl
  · rw [he]
    rfl

/-- A routine that only looks leaves the links alone. -/
theorem links_of_same {m : TreeM δ α} (hm : Keeps Volume.Same m) : Keeps (Volume.SameBy π) m := by
  intro t
  refine wp_mono (hm t) ?_ ?_
  · rintro _ t' rfl
    exact refl_of (Volume.SameBy π) t'
  · rintro _ t' rfl
    exact refl_of (Volume.SameBy π) t'

/-- `getNode` leaves the node as it is seen. -/
theorem links_getNode (i : NodeId) : Keeps (Volume.SameBy π) (getNode (δ := δ) i) :=
  links_of_same (same_getNode i)

/-- `getNodes` changes nothing. -/
theorem same_getNodes (is : List NodeId) : Keeps Volume.Same (getNodes (δ := δ) is) := by
  induction is with
  | nil => exact keeps_pure _
  | cons i is ih => exact keeps_bind (same_getNode i) fun _ => keeps_bind ih fun _ => keeps_pure _

/-- `getNodes` leaves the node as it is seen. -/
theorem links_getNodes (is : List NodeId) : Keeps (Volume.SameBy π) (getNodes (δ := δ) is) :=
  links_of_same (same_getNodes is)

section Write

variable [Device δ] [Aloof π]

/-- The nodes a directory is read into are in no tree yet. -/
theorem loose_onNode_cacheLoop (dir : NodeId) (fuel offset : Nat) (t : Volume δ) :
    wp (onNode dir (cacheLoop fuel offset))
      (fun r t' => t.SameBy π t' ∧ ∀ n ∈ r.1, n.links = .loose) anyStop t := by
  unfold wp onNode
  cases hd : t.heap dir with
  | none => exact trivial
  | some d =>
    have hrun := loose_cacheLoop (π := π) fuel offset ⟨t.ef, d⟩
    unfold wp at hrun
    dsimp only
    cases hc : cacheLoop fuel offset (⟨t.ef, d⟩ : FileState δ) with
    | error e s => exact trivial
    | ok r s =>
      rw [hc] at hrun
      exact ⟨links_store hd hrun.1, hrun.2⟩

/-- `rewriteEntries` leaves the node as it is seen. -/
theorem links_rewriteEntries (dir : NodeId) (n : Node) :
    Keeps (Volume.SameBy π) (rewriteEntries (δ := δ) dir n) := by
  refine keeps_bind (links_onNode dir (links_readEntries _ _)) fun r => ?_
  cases r with
  | error e => exact keeps_pure _
  | ok entries =>
    refine keeps_bind (links_onVolume _) fun ok => keeps_ite (keeps_pure _) ?_
    exact keeps_look fun t => links_onNode dir (links_writeEntries _ _)

/-- `exfat_flush_node` leaves the node as it is seen. -/
theorem links_exfatFlushNode (i : NodeId) :
    Keeps (Volume.SameBy π) (exfatFlushNode (δ := δ) i) := by
  refine keeps_bind (links_getNode i) fun n => keeps_look fun t => ?_
  refine keeps_ite (keeps_pure _) (keeps_ite (keeps_throw _) ?_)
  cases n.parent with
  | none => exact keeps_pure _
  | some dir =>
    refine keeps_bind (links_rewriteEntries dir n) fun r => ?_
    cases r with
    | error e => exact keeps_pure _
    | ok _ => exact keeps_bind (links_updateNode i fun _ => Aloof.data rfl) fun _ =>
      links_onVolume _

omit [Aloof π] [Device δ] in
/-- A loop over nodes leaves them as its steps do. -/
theorem links_untilError {f : NodeId → TreeM δ Rc} (hf : ∀ i, Keeps (Volume.SameBy π) (f i))
    (is : List NodeId) : Keeps (Volume.SameBy π) (untilError f is) := by
  induction is with
  | nil => exact keeps_pure _
  | cons i is ih =>
    refine keeps_bind (hf i) fun r => ?_
    cases r with
    | error e => exact keeps_pure _
    | ok _ => exact ih

/-- `flush_nodes` leaves the node as it is seen. -/
theorem links_flushNodes (fuel : Nat) (i : NodeId) :
    Keeps (Volume.SameBy π) (flushNodes (δ := δ) fuel i) := by
  induction fuel generalizing i with
  | zero => exact keeps_throw _
  | succ fuel ih =>
    refine keeps_bind (links_getNode i) fun n => keeps_bind (links_untilError ih _) fun r => ?_
    cases r with
    | error e => exact keeps_pure _
    | ok _ => exact links_exfatFlushNode i

/-- `exfat_flush_nodes` leaves the node as it is seen. -/
theorem links_exfatFlushNodes : Keeps (Volume.SameBy π) (exfatFlushNodes (δ := δ)) :=
  keeps_look fun _ => links_flushNodes _ _

/-- `shrink_directory` leaves the node as it is seen. -/
theorem links_shrinkDirectory (dir : NodeId) (deletedOffset : Nat) :
    Keeps (Volume.SameBy π) (shrinkDirectory (δ := δ) dir deletedOffset) := by
  refine keeps_bind (links_getNode dir) fun d => keeps_ite (keeps_throw _) ?_
  refine keeps_ite (keeps_throw _) (keeps_bind (links_getNodes _) fun nodes => ?_)
  refine keeps_ite (keeps_pure _) (keeps_look fun t => keeps_ite (keeps_pure _) ?_)
  exact links_onNode dir (keeps_exfatTruncate _ _)

/-- `check_slot` leaves the node as it is seen. -/
theorem links_checkSlot (dir : NodeId) (offset n : Nat) :
    Keeps (Volume.SameBy π) (checkSlot (δ := δ) dir offset n) := by
  refine keeps_look fun t => keeps_ite (keeps_pure _) ?_
  refine keeps_bind (links_onNode dir (links_readEntries _ _)) fun r => ?_
  cases r with
  | error e => exact keeps_pure _
  | ok entries => exact keeps_ite (keeps_pure _) (keeps_pure _)

/-- `slotLoop` leaves the node as it is seen. -/
theorem links_slotLoop (dir : NodeId) (used : Nat → Bool) (total n fuel i contiguous start : Nat) :
    Keeps (Volume.SameBy π) (slotLoop (δ := δ) dir used total n fuel i contiguous start) := by
  induction fuel generalizing i contiguous start with
  | zero => exact keeps_throw _
  | succ fuel ih =>
    refine keeps_ite (keeps_pure _) (keeps_ite (ih _ _ _) (keeps_ite ?_ (ih _ _ _)))
    refine keeps_bind (links_checkSlot _ _ _) fun r => ?_
    match r with
    | .error .einval => exact ih _ _ _
    | .error .enoent | .error .eio | .error .enomem | .error .eexist | .error .enotdir
    | .error .eisdir | .error .enospc | .error .erofs | .error .enametoolong | .error .enotempty
    | .error .eilseq | .error .enodev => exact keeps_pure _
    | .ok _ => exact keeps_pure _

/-- `find_slot` leaves the node as it is seen. -/
theorem links_findSlot (dir : NodeId) (n : Nat) :
    Keeps (Volume.SameBy π) (findSlot (δ := δ) dir n) := by
  refine keeps_bind (links_getNode dir) fun d => keeps_ite (keeps_throw _) ?_
  refine keeps_bind (links_onVolume _) fun ok => keeps_ite ?_ ?_
  · exact keeps_bind (links_onVolume _) fun _ => keeps_pure _
  refine keeps_bind (links_getNodes _) fun nodes => ?_
  refine keeps_bind (links_slotLoop _ _ _ _ _ _ _ _) fun r => ?_
  match r with
  | .error e => exact keeps_pure _
  | .ok (.found offset) => exact keeps_pure _
  | .ok (.extend contiguous start) =>
    refine keeps_look fun t => ?_
    refine keeps_bind (links_onNode dir (keeps_exfatTruncate _ _)) fun r => ?_
    cases r with
    | error e => exact keeps_pure _
    | ok _ => exact keeps_pure _

omit [Aloof π] [Device δ] in
/-- `isAncestor` leaves the node as it is seen. -/
theorem links_isAncestor (i : NodeId) (fuel : Nat) (p : NodeId) :
    Keeps (Volume.SameBy π) (isAncestor (δ := δ) i fuel p) := by
  induction fuel generalizing p with
  | zero => exact keeps_throw _
  | succ fuel ih =>
    refine keeps_ite (keeps_pure _) (keeps_bind (links_getNode p) fun n => ?_)
    cases n.parent with
    | none => exact keeps_pure _
    | some q => exact ih q

omit [Aloof π] [Device δ] in
/-- `targetBelow` leaves the node as it is seen. -/
theorem links_targetBelow (dir i : NodeId) :
    Keeps (Volume.SameBy π) (targetBelow (δ := δ) dir i) := by
  refine keeps_bind (links_getNode i) fun n => keeps_look fun t => ?_
  exact keeps_ite (links_isAncestor _ _ _) (keeps_pure _)

/-- `find_label` leaves the node as it is seen. -/
theorem links_findLabel (fuel offset : Nat) :
    Keeps (FileState.SameBy π) (findLabel (δ := δ) fuel offset) := by
  induction fuel generalizing offset with
  | zero => exact keeps_throw _
  | succ fuel ih =>
    refine keeps_bind (links_readEntries _ _) fun r => ?_
    cases r with
    | error e => exact keeps_pure _
    | ok entries => exact keeps_ite (keeps_pure _) (ih _)

/-- `exfat_set_label` leaves the node as it is seen. -/
theorem links_exfatSetLabel (label : List UInt8) :
    Keeps (Volume.SameBy π) (exfatSetLabel (δ := δ) label) := by
  unfold exfatSetLabel
  cases exfatUtf8ToUtf16 label (enameMax + 1) with
  | error e => exact keeps_pure _
  | ok units =>
    refine keeps_bind ?_ fun r => ?_
    · refine keeps_look fun t => keeps_bind (links_getNode _) fun root => ?_
      refine keeps_bind (links_onNode _ (links_findLabel _ _)) fun r => ?_
      split
      · exact links_findSlot _ _
      · exact keeps_pure _
    · cases r with
      | error e => exact keeps_pure _
      | ok offset =>
        refine keeps_look fun t => ?_
        refine keeps_bind (links_onNode _ (links_writeEntries _ _)) fun r => ?_
        cases r with
        | error e => exact keeps_pure _
        | ok _ => exact keeps_bind (links_onVolume _) fun _ => keeps_pure _

end Write

end ExFat
