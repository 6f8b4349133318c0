import Lai.Host.FileTree
/-!
# Writing to file trees

A path leads to the same place before and after a file has been written, since writing makes no folders
and no links. The file that is written holds the new bytes, and nothing else changes: a path whose content
changes leads to that same file, be it by another way through the folders, through links, or because the
file is at several places. A sink takes what is written and stays as it is.
-/

namespace Lai.FileTree

/-- What a path leads to. -/
def find? (tree : FileTree) (path : String) : Option FileNode :=
  match tree.locate false path with
  | .ok place => tree.node? place
  | .error _ => none

/-- The bytes at a path, whether or not they may be read. -/
def content? (tree : FileTree) (path : String) : Option (List UInt8) :=
  match tree.find? path with
  | some (.file number) => some (tree.data number).bytes
  | some .sink => some []
  | _ => none

variable {tree other written : FileTree} {path : String} {place reached : List String}

/-! ### Following paths -/

theorem pass_eq_ok_iff {name : String} : tree.pass place name = .ok () ↔
    ∃ access, tree.node? place = some (.folder access) ∧ (name = "" ∨ access.search) := by
  unfold pass folder
  cases tree.node? place with
  | none => simp
  | some node => cases node <;> simp [Decidable.or_iff_not_imp_left]

theorem walkWith_cons_eq_ok_iff {making : Bool} {again : List String → List String → Except FileCause (List String)}
    {name : String} {rest : List String} :
    tree.walkWith making again place (name :: rest) = .ok reached ↔
      tree.pass place name = .ok () ∧ ¬ (making ∧ NamesFolder name rest) ∧ name.utf8ByteSize ≤ maxName ∧
      ((∃ target names, tree.node? (follow place name) = some (.link target) ∧ elements target = .ok names ∧
          again (start place target) (names ++ rest) = .ok reached) ∨
        (∀ target, tree.node? (follow place name) ≠ some (.link target)) ∧
          tree.walkWith making again (follow place name) rest = .ok reached) := by
  rw [walkWith]
  cases tree.pass place name with
  | error cause => simp
  | ok _ =>
      by_cases hfolder : making ∧ NamesFolder name rest
      · simp [hfolder]
      by_cases hname : name.utf8ByteSize > maxName
      · simp [hfolder, hname, Nat.not_le.2 hname]
      simp only [hfolder, hname, if_false, not_false_eq_true, true_and, Nat.not_lt.1 hname]
      cases tree.node? (follow place name) with
      | none => simp
      | some node =>
          cases node with
          | link target => cases helements : elements target <;> simp [helements]
          | folder _ => simp
          | file _ => simp
          | sink => simp

/-- The same folders and the same links are in both trees. -/
structure SameWays (tree other : FileTree) : Prop where
  home : other.home = tree.home
  folder : ∀ place access, other.node? place = some (.folder access) ↔ tree.node? place = some (.folder access)
  link : ∀ place target, other.node? place = some (.link target) ↔ tree.node? place = some (.link target)

theorem SameWays.symm (h : SameWays tree other) : SameWays other tree where
  home := h.home.symm
  folder place access := (h.folder place access).symm
  link place target := (h.link place target).symm

section

variable {making merely : Bool} (hmerely : merely = true → making = true) (h : SameWays tree other)

include hmerely h

/-- Where folders and links are the same, paths lead to the same places; whoever makes a file goes no
other ways than who reads one. -/
theorem walkWith_of_sameWays {again more : List String → List String → Except FileCause (List String)}
    (hagain : ∀ place names, again place names = .ok reached → more place names = .ok reached)
    {names : List String} (hwalk : tree.walkWith making again place names = .ok reached) :
    other.walkWith merely more place names = .ok reached := by
  induction names generalizing place with
  | nil => exact hwalk
  | cons name rest ih =>
      obtain ⟨hpass, hfolder, hname, hgoes⟩ := walkWith_cons_eq_ok_iff.1 hwalk
      obtain ⟨access, hnode, hsearch⟩ := pass_eq_ok_iff.1 hpass
      refine walkWith_cons_eq_ok_iff.2 ⟨pass_eq_ok_iff.2 ⟨access, (h.folder _ _).2 hnode, hsearch⟩,
        fun hnames => hfolder ⟨hmerely hnames.1, hnames.2⟩, hname, ?_⟩
      rcases hgoes with ⟨target, names, hlink, helements, hrest⟩ | ⟨hnone, hrest⟩
      · exact Or.inl ⟨target, names, (h.link _ _).2 hlink, helements, hagain _ _ hrest⟩
      · exact Or.inr ⟨fun target hlink => hnone target ((h.link _ _).1 hlink), ih hrest⟩

theorem walk_of_sameWays {links : Nat} {names : List String} (hwalk : tree.walk making links place names = .ok reached) :
    other.walk merely links place names = .ok reached := by
  induction links generalizing place names with
  | zero => exact walkWith_of_sameWays hmerely h (fun _ _ hloop => by contradiction) hwalk
  | succ links ih => exact walkWith_of_sameWays hmerely h (fun _ _ => ih) hwalk

theorem locate_of_sameWays (hlocate : tree.locate making path = .ok reached) :
    other.locate merely path = .ok reached := by
  unfold locate at hlocate ⊢
  cases helements : elements path with
  | error cause => simp [helements] at hlocate
  | ok names =>
      rw [helements] at hlocate
      rw [h.home]
      exact walk_of_sameWays hmerely h hlocate

end

/-- A file is made at the place that its path leads to. -/
theorem locate_of_making (h : tree.locate true path = .ok place) : tree.locate false path = .ok place :=
  locate_of_sameWays (fun _ => rfl) ⟨rfl, fun _ _ => Iff.rfl, fun _ _ => Iff.rfl⟩ h

/-! ### Putting bytes into a file -/

theorem le_foldr_max {numbers : List Nat} {n : Nat} (h : n ∈ numbers) : n ≤ numbers.foldr max 0 := by
  induction numbers with
  | nil => cases h
  | cons first rest ih =>
      rw [List.foldr_cons]
      rcases List.mem_cons.1 h with rfl | hrest
      · exact Nat.le_max_left _ _
      · exact Nat.le_trans (ih hrest) (Nat.le_max_right _ _)

/-- No place has the file of the unused number. -/
theorem node?_ne_unused (tree : FileTree) (place : List String) : tree.node? place ≠ some (.file tree.unused) := by
  unfold node?
  split
  · simp
  · intro hlookup
    obtain ⟨front, back, hnodes, -⟩ := List.lookup_eq_some_iff.1 hlookup
    have hmem : (place, FileNode.file tree.unused) ∈ tree.nodes := by simp [hnodes]
    have hle : tree.unused + 1 ≤ tree.unused := le_foldr_max (List.mem_map.2 ⟨_, hmem, rfl⟩)
    omega

theorem data_of_store {number : Nat} {data : FileData} (hstore : written.store = (number, data) :: tree.store)
    (other : Nat) : written.data other = if other = number then data else tree.data other := by
  unfold FileTree.data
  rw [hstore]
  by_cases hother : other = number
  · simp [hother]
  · rw [List.lookup_cons, beq_false_of_ne hother, if_neg hother]

theorem node?_of_nodes {node : FileNode} (hplace : place ≠ []) (hroot : written.root = tree.root)
    (hnodes : written.nodes = (place, node) :: tree.nodes) (other : List String) :
    written.node? other = if other = place then some node else tree.node? other := by
  unfold node?
  rw [hnodes, hroot]
  by_cases hother : other = place
  · simp [hother, hplace]
  · rw [List.lookup_cons, beq_false_of_ne hother, if_neg hother]

theorem mayWrite_eq_ok_iff : tree.mayWrite place = .ok () ↔
    tree.node? place = some .sink ∨
    (∃ number, tree.node? place = some (.file number) ∧ (tree.data number).access.write) ∨
    (tree.node? place = none ∧ ∃ access, tree.node? place.dropLast = some (.folder access) ∧ access.write) := by
  unfold mayWrite folder
  cases tree.node? place with
  | none =>
      cases tree.node? place.dropLast with
      | none => simp
      | some node => cases node <;> simp
  | some node => cases node <;> simp

/-- What writing can do: nothing, at a sink, or else it puts the bytes into the file that is at the place
or into one made there. -/
theorem write_cases {bytes : List UInt8} (h : tree.write path bytes = .ok written) :
    ∃ place, tree.locate true path = .ok place ∧
      (tree.node? place = some .sink ∧ written = tree ∨
        ∃ number access,
          (tree.node? place = some (.file number) ∧ access = (tree.data number).access ∨
            tree.node? place = none ∧ access = {} ∧ ∀ other, tree.node? other ≠ some (.file number)) ∧
          written.home = tree.home ∧
          (∀ other, written.node? other = if other = place then some (.file number) else tree.node? other) ∧
          ∀ other, written.data other = if other = number then ⟨bytes, access⟩ else tree.data other) := by
  unfold write at h
  split at h
  · contradiction
  rename_i place hlocate
  refine ⟨place, hlocate, ?_⟩
  split at h
  · contradiction
  rename_i hmay
  obtain rfl := Except.ok.inj h
  rcases mayWrite_eq_ok_iff.1 hmay with hsink | ⟨number, hfile, -⟩ | ⟨hnone, -⟩
  · exact Or.inl ⟨hsink, by rw [put, hsink]⟩
  · refine Or.inr ⟨number, _, Or.inl ⟨hfile, rfl⟩, ?_⟩
    rw [put, hfile]
    refine ⟨rfl, fun other => ?_, data_of_store rfl⟩
    by_cases hother : other = place
    · rw [if_pos hother, hother]
      exact hfile
    · rw [if_neg hother]
      rfl
  · have hplace : place ≠ [] := by
      rintro rfl
      exact nomatch hnone
    refine Or.inr ⟨tree.unused, _, Or.inr ⟨hnone, rfl, node?_ne_unused tree⟩, ?_⟩
    rw [put, hnone]
    exact ⟨rfl, node?_of_nodes hplace rfl rfl, data_of_store rfl⟩

/-! ### Writing -/

/-- What writing bytes to a file does. -/
structure Wrote (tree : FileTree) (path : String) (bytes : List UInt8) (written : FileTree) : Prop where
  sink : tree.find? path = some .sink → written = tree
  content : tree.find? path ≠ some .sink → written.content? path = some bytes
  /-- A path whose content changes led and leads to the very file that was written, or both led to nothing. -/
  changed : ∀ other, written.content? other ≠ tree.content? other → tree.find? other = tree.find? path ∧
    ∃ number, written.find? other = some (.file number) ∧ written.find? path = some (.file number)
  /-- Every path that led to the file has the new content. -/
  shared : ∀ other number, tree.find? other = some (.file number) → tree.find? path = some (.file number) →
    written.content? other = some bytes
  /-- The file can be read unless it was there before and could not be read. -/
  read : tree.find? path ≠ some .sink →
    (∀ number, tree.find? path = some (.file number) → (tree.data number).access.read = true) →
    written.read path = .ok bytes
  access : ∀ number, tree.find? path = some (.file number) → (written.data number).access = (tree.data number).access
  /-- Nothing goes away or is replaced, and nothing is made but the file. -/
  node : ∀ place, tree.node? place ≠ none ∨ tree.locate true path ≠ .ok place →
    written.node? place = tree.node? place
  home : written.home = tree.home

theorem find?_of_locate (h : tree.locate false path = .ok place) : tree.find? path = tree.node? place := by
  rw [find?, h]

section

variable {number : Nat}
  (hwas : tree.node? place = some (.file number) ∨ tree.node? place = none)
  (hhome : written.home = tree.home)
  (hnode : ∀ other, written.node? other = if other = place then some (.file number) else tree.node? other)

include hwas hhome hnode

/-- A file at a place where there was a file or nothing opens and closes no ways. -/
theorem sameWays_of_file : SameWays tree written where
  home := hhome
  folder other access := by
    rw [hnode]
    by_cases hother : other = place
    · rcases hwas with h | h <;> simp [hother, h]
    · rw [if_neg hother]
  link other target := by
    rw [hnode]
    by_cases hother : other = place
    · rcases hwas with h | h <;> simp [hother, h]
    · rw [if_neg hother]

/-- A path leads to the place of the file or to what it led to before. -/
theorem find?_of_file (path : String) :
    written.find? path = some (.file number) ∧ tree.find? path = tree.node? place ∨
      written.find? path = tree.find? path := by
  have hways := sameWays_of_file hwas hhome hnode
  cases hlocate : tree.locate false path with
  | ok reached =>
      have hreached := locate_of_sameWays (fun h => h) hways hlocate
      rw [find?_of_locate hlocate, find?_of_locate hreached, hnode]
      split
      · rename_i heq
        exact Or.inl ⟨rfl, heq ▸ rfl⟩
      · exact Or.inr rfl
  | error cause =>
      right
      cases hwritten : written.locate false path with
      | ok reached =>
          have hreached := locate_of_sameWays (fun h => h) hways.symm hwritten
          rw [hlocate] at hreached
          contradiction
      | error _ => rw [find?, find?, hlocate, hwritten]

/-- What is at a path changes only if the path led to the same file before, or to its place. -/
theorem content?_of_file (hdata : ∀ other, other ≠ number → written.data other = tree.data other)
    (hnew : tree.node? place = none → ∀ other, tree.node? other ≠ some (.file number)) (path : String) :
    written.find? path = some (.file number) ∧ tree.find? path = tree.node? place ∨
      written.content? path = tree.content? path := by
  rcases find?_of_file hwas hhome hnode path with hfile | hsame
  · exact Or.inl hfile
  · by_cases hfile : tree.find? path = some (.file number)
    · left
      refine ⟨hsame.trans hfile, ?_⟩
      rcases hwas with h | h
      · rw [hfile, h]
      · -- The number is new, so nothing has led to it.
        unfold find? at hfile
        split at hfile
        · exact absurd hfile (hnew h _)
        · contradiction
    · right
      rw [content?, content?, hsame]
      split
      · rename_i other hother
        rw [hdata other fun heq => hfile (hother.trans (by rw [heq]))]
      · rfl
      · rfl

end

theorem wrote_of_write {bytes : List UInt8} (h : tree.write path bytes = .ok written) :
    tree.Wrote path bytes written := by
  obtain ⟨place, hmaking, hwhat⟩ := write_cases h
  have hplace := locate_of_making hmaking
  have hfind := find?_of_locate hplace
  rcases hwhat with ⟨hsink, rfl⟩ | ⟨number, access, hwas, hhome, hnode, hdata⟩
  · rw [hsink] at hfind
    refine ⟨fun _ => rfl, fun hne => absurd hfind hne, fun other hother => absurd rfl hother,
      fun other number _ hfile => ?_, fun hne => absurd hfind hne, fun _ _ => rfl, fun _ _ => rfl, rfl⟩
    simp [hfind] at hfile
  · have hthere : tree.node? place = some (.file number) ∨ tree.node? place = none :=
      hwas.imp And.left And.left
    have hnew (hnone : tree.node? place = none) (other : List String) : tree.node? other ≠ some (.file number) := by
      rcases hwas with ⟨h, -⟩ | ⟨-, -, h⟩
      · rw [h] at hnone
        contradiction
      · exact h other
    have hreached := locate_of_sameWays (fun h => h) (sameWays_of_file hthere hhome hnode) hplace
    have hfile : written.find? path = some (.file number) := by
      rw [find?_of_locate hreached, hnode, if_pos rfl]
    have hfilled : written.data number = ⟨bytes, access⟩ := by rw [hdata, if_pos rfl]
    have hcontent (other : String) (hother : written.find? other = some (.file number)) :
        written.content? other = some bytes := by
      rw [content?, hother]
      dsimp only
      rw [hfilled]
    constructor
    · intro hsink
      rw [hfind] at hsink
      rcases hthere with h | h <;> simp [h] at hsink
    · exact fun _ => hcontent path hfile
    · intro other hother
      rcases content?_of_file hthere hhome hnode (fun n hn => by rw [hdata, if_neg hn]) hnew other with hsame | hsame
      · exact ⟨hsame.2.trans hfind.symm, number, hsame.1, hfile⟩
      · exact absurd hsame hother
    · intro other found hother hfound
      have hnumber : found = number := by
        rw [hfind] at hfound
        rcases hthere with h | h
        · simpa [h] using hfound.symm
        · simp [h] at hfound
      apply hcontent
      rcases find?_of_file hthere hhome hnode other with ⟨hsame, -⟩ | hsame
      · exact hsame
      · rw [hsame, hother, hnumber]
    · intro _ hreadable
      have haccess : access.read = true := by
        rcases hwas with ⟨h, rfl⟩ | ⟨-, rfl, -⟩
        · exact hreadable number (hfind.trans h)
        · rfl
      rw [read, hreached]
      dsimp only
      rw [hnode, if_pos rfl]
      simp [hfilled, haccess]
    · intro found hfound
      rw [hfind] at hfound
      rcases hwas with ⟨h, rfl⟩ | ⟨h, -⟩
      · rw [h, Option.some.injEq, FileNode.file.injEq] at hfound
        rw [← hfound, hfilled]
      · rw [h] at hfound
        contradiction
    · intro other hother
      rw [hnode]
      split
      · rename_i heq
        rcases hthere with h | h
        · rw [heq, h]
        · rw [heq, h, hmaking] at hother
          simp at hother
      · rfl
    · exact hhome

end Lai.FileTree
