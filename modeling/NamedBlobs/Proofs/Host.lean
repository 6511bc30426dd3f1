import NamedBlobs.Host
import NamedBlobs.Proofs.Buffer.Containment
import NamedBlobs.Proofs.Lookup.Directory
import NamedBlobs.Proofs.Traced

/-!
# The first lookup fixes where a process reads from

The variable and the files of a process change, and it looks names up and releases
buffers, in any order. Where it reads from, once it has to, follows from its state
and the actions to come (`Host.settled`), and no action changes what it will be
(`Action.exists_ends`). So it is the same for every lookup of a run, namely what the
variable says at the first one, while the files are those at the lookup itself.
-/

namespace NamedBlobs

open Traced (Ends)

/-- The bytes that a request gets of a blob: none where a name, a destination for the
size or the memory for them is missing. -/
def Request.share (request : Request) (allocator : Allocator) (heap : Heap) (blob : Blob) :
    Bytes :=
  if request.name = none ∨ request.size = none ∨
      allocator heap (blob.size + Loan.headerSize) Loan.alignment = none then []
  else blob.bytes

/-- The reply to a request carries `bytes`: a destination for the size is told how many
they are, and they are in a buffer if there are any. -/
structure Reply.Carries (reply : Reply) (request : Request) (bytes : Bytes) (heap : Heap) :
    Prop where
  size : reply.size = request.size.map fun _ => bytes.length
  buffer : reply.buffer = none ↔ bytes = []
  contents : ∀ payload, reply.buffer = some payload →
    heap.read payload bytes.length = some bytes

theorem Reply.Carries.nothing (request : Request) (heap : Heap) :
    Carries ⟨none, request.size.map fun _ => 0⟩ request [] heap :=
  ⟨rfl, by simp, by simp⟩

theorem Reply.Carries.eq_nothing {reply : Reply} {request : Request} {heap : Heap}
    (h : reply.Carries request [] heap) : reply = ⟨none, request.size.map fun _ => 0⟩ := by
  obtain ⟨buffer, size⟩ := reply
  rw [mk.injEq]
  exact ⟨h.buffer.mpr rfl, h.size⟩

theorem Reply.carries_ofLookup (allocator : Allocator) (heap : Heap) (name : Bytes) (held : Nat)
    (blob : Blob) :
    (ofLookup allocator heap (.ok blob)).1.Carries ⟨some name, some held⟩
      (Request.share ⟨some name, some held⟩ allocator heap blob)
      (ofLookup allocator heap (.ok blob)).2 := by
  rcases ofLookup_cases allocator heap (.ok blob) with
    ⟨hreply, hrefused⟩ | ⟨_, payload, heap', ⟨rfl⟩, hbytes, hgranted, hreply, hread⟩
  · have hshare : Request.share ⟨some name, some held⟩ allocator heap blob = [] := by
      by_cases hbytes : blob.bytes = []
      · rw [Request.share, hbytes, ite_self]
      · rw [Request.share, if_pos (Or.inr (Or.inr (hrefused blob rfl hbytes)))]
    rw [hreply, hshare]
    exact .nothing ⟨some name, some held⟩ heap
  · have hshare : Request.share ⟨some name, some held⟩ allocator heap blob = blob.bytes := by
      rw [Request.share, if_neg (by simp [hgranted])]
    rw [hreply, hshare]
    exact ⟨rfl, by simp [hbytes], by rintro _ ⟨rfl⟩; exact hread⟩

namespace Request

theorem share_of_name_eq_none {request : Request} (h : request.name = none)
    (allocator : Allocator) (heap : Heap) (blob : Blob) :
    request.share allocator heap blob = [] := if_pos (Or.inl h)

theorem share_of_size_eq_none {request : Request} (h : request.size = none)
    (allocator : Allocator) (heap : Heap) (blob : Blob) :
    request.share allocator heap blob = [] := if_pos (Or.inr (Or.inl h))

theorem share_empty (request : Request) (allocator : Allocator) (heap : Heap) :
    request.share allocator heap .empty = [] := ite_self []

end Request

namespace Source

variable {σ : Type} {source : Source (Traced σ)}

/-- Over a source whose loads come back and change nothing, the reply carries what the
request gets of the blob that the lookup finds, in whatever heap the buffer is placed. -/
theorem exists_carries (hreturns : source.Returns) (hafter : ∀ id s, source.after id s = s)
    (allocator : Allocator) (request : Request) (s : σ) :
    ∃ blob, (∀ name, request.name = some name →
        Ends (source.resolve (terminated name)) s blob s) ∧
      ∀ heap, ∃ reply heap',
        Ends (source.resolveInto allocator heap request) s (reply, heap') s ∧
        reply.Carries request (request.share allocator heap blob) heap' := by
  obtain ⟨_ | name, size⟩ := request
  · refine ⟨.empty, by simp, fun heap => ⟨⟨none, size.map fun _ => 0⟩, heap, ?_, ?_⟩⟩
    · cases size <;> exact ⟨rfl, rfl⟩
    · rw [Request.share_empty]
      exact .nothing ⟨none, size⟩ heap
  · obtain ⟨blob, hblob⟩ :=
      (Dialogue.passesPanics_resolve (terminated name)).exists_value_of_returns hreturns s
    refine ⟨blob, ?_, fun heap => ?_⟩
    · rintro _ ⟨rfl⟩
      exact (source.follows_resolve (terminated name)).ends hafter hblob
    · obtain _ | held := size
      · refine ⟨⟨none, none⟩, heap, ⟨rfl, rfl⟩, ?_⟩
        rw [Request.share_of_size_eq_none rfl]
        exact .nothing ⟨some name, none⟩ heap
      · refine ⟨_, _, (source.follows_resolveInto allocator heap _).ends hafter ?_,
          Reply.carries_ofLookup allocator heap name held blob⟩
        rw [Dialogue.resolveInto, Dialogue.run_map, hblob]

end Source

namespace HostSource

variable (source : HostSource)

theorem returns : source.source.Returns := by
  intro id files
  cases source <;> exact ⟨_, rfl⟩

theorem after_source (id : ResourceId) (files : FileTree) :
    source.source.after id files = files := by
  cases source <;> rfl

/-- Where nothing is read, every name stands for nothing. -/
theorem ends_resolve_nothing (name : Bytes) (files : FileTree) :
    Ends (nothing.source.resolve name) files .empty files := ⟨rfl, rfl⟩

theorem share_eq_nil_of_nothing {request : Request} {files : FileTree} {blob : Blob}
    (h : ∀ name, request.name = some name →
      Ends (nothing.source.resolve (terminated name)) files blob files)
    (allocator : Allocator) (heap : Heap) : request.share allocator heap blob = [] := by
  rcases hname : request.name with _ | name
  · exact Request.share_of_name_eq_none hname allocator heap blob
  · have hempty := (ends_resolve_nothing (terminated name) files).1
    obtain rfl : Blob.empty = blob := Except.ok.inj (hempty.symm.trans (h name hname).1)
    exact request.share_empty allocator heap

end HostSource

namespace Host

/-- What callers of the library are linked against. -/
inductive Linkage where
  | current
  | legacy

def Linkage.resolve : Linkage → Allocator → Request → Traced Host Reply
  | current => Host.resolve
  | legacy => resolveLegacy

def Linkage.release : Linkage → Option Address → Traced Host Unit
  | current => Host.release
  | legacy => releaseLegacy

theorem Linkage.resolve_eq (linkage : Linkage) : linkage.resolve = Host.resolve := by
  cases linkage <;> rfl

theorem Linkage.release_eq (linkage : Linkage) : linkage.release = Host.release := by
  cases linkage <;> rfl

/-- What happens in a process that uses the library. -/
inductive Action where
  /-- The variable is set, or unset. -/
  | setResourceDir (dir : Option Path)
  | changeFiles (change : FileTree → FileTree)
  | resolve (linkage : Linkage) (allocator : Allocator) (request : Request)
  | release (linkage : Linkage) (payload : Option Address)

namespace Action

def perform : Action → Traced Host Unit
  | setResourceDir dir => .modify fun host => { host with resourceDir := dir }
  | changeFiles change => .modify fun host => { host with files := change host.files }
  | resolve linkage allocator request => do
      let _ ← linkage.resolve allocator request
      return ()
  | release linkage payload => linkage.release payload

def performAll : List Action → Traced Host Unit
  | [] => pure ()
  | action :: actions => do
      action.perform
      performAll actions

def filesAfter (files : FileTree) : List Action → FileTree
  | [] => files
  | changeFiles change :: actions => filesAfter (change files) actions
  | _ :: actions => filesAfter files actions

/-- The value that the variable, which is `dir` before the actions, has at the first lookup,
or after them if there is none. -/
def dirAtLookup (dir : Option Path) : List Action → Option Path
  | [] => dir
  | resolve _ _ _ :: _ => dir
  | setResourceDir dir :: actions => dirAtLookup dir actions
  | _ :: actions => dirAtLookup dir actions

/-- The actions without the releases and without the changes of the variable after the
first lookup, and with every lookup under its current name. `looked` says whether there
was a lookup before them. -/
def essential : (looked : Bool) → List Action → List Action
  | _, [] => []
  | looked, release _ _ :: actions => essential looked actions
  | _, resolve _ allocator request :: actions =>
      resolve .current allocator request :: essential true actions
  | true, setResourceDir _ :: actions => essential true actions
  | false, setResourceDir dir :: actions => setResourceDir dir :: essential false actions
  | looked, changeFiles change :: actions => changeFiles change :: essential looked actions

end Action

/-- Where the process reads from at the next lookup, if `actions` come next. -/
def settled (host : Host) (actions : List Action) : HostSource :=
  host.source.getD (.choose (Action.dirAtLookup host.resourceDir actions))

theorem ends_openSource (host : Host) :
    Ends openSource host (host.settled []) { host with source := some (host.settled []) } := by
  obtain ⟨dir, _ | source, observed, files, heap⟩ := host
  · exact ⟨rfl, rfl⟩
  · exact ⟨rfl, rfl⟩

/-- A lookup replies what its source does over the files as they are. -/
theorem ends_resolve {host : Host} {allocator : Allocator} {request : Request} {reply : Reply}
    {heap : Heap}
    (h : Ends ((host.settled []).source.resolveInto allocator host.heap request) host.files
      (reply, heap) host.files) :
    Ends (resolve allocator request) host reply
      { host with source := some (host.settled []), heap := heap } := by
  let opened := { host with source := some (host.settled []) }
  refine (ends_openSource host).bind (Ends.get_bind ?_)
  refine Ends.bind (Ends.focus (s := opened) Host.files _ h) ?_
  exact Ends.modify_bind _ (Ends.pure _ _)

namespace Action

theorem filesAfter_cons (files : FileTree) (action : Action) (actions : List Action) :
    filesAfter files (action :: actions) = filesAfter (filesAfter files [action]) actions := by
  cases action <;> rfl

/-- What follows a lookup has no part in what the variable is at the first one. -/
theorem dirAtLookup_append_resolve (dir : Option Path) (actions : List Action)
    (linkage : Linkage) (allocator : Allocator) (request : Request) (later : List Action) :
    dirAtLookup dir (actions ++ resolve linkage allocator request :: later) =
      dirAtLookup dir actions := by
  induction actions generalizing dir with
  | nil => rfl
  | cons action actions ih =>
      cases action with
      | setResourceDir dir' => exact ih dir'
      | resolve => rfl
      | changeFiles => exact ih dir
      | release => exact ih dir

theorem filesAfter_essential (looked : Bool) (files : FileTree) (actions : List Action) :
    filesAfter files (essential looked actions) = filesAfter files actions := by
  induction actions generalizing looked files with
  | nil => cases looked <;> rfl
  | cons action actions ih => cases looked <;> cases action <;> exact ih _ _

theorem dirAtLookup_essential (dir : Option Path) (actions : List Action) :
    dirAtLookup dir (essential false actions) = dirAtLookup dir actions := by
  induction actions generalizing dir with
  | nil => rfl
  | cons action actions ih =>
      cases action with
      | setResourceDir dir' => exact ih dir'
      | resolve => rfl
      | changeFiles => exact ih dir
      | release => exact ih dir

/-- Every action comes back. The files are then as it makes them, and the next lookup reads
from where it was going to read with this action ahead. -/
theorem exists_ends (action : Action) (host : Host) :
    ∃ host', Ends action.perform host () host' ∧
      host'.files = filesAfter host.files [action] ∧
      ∀ actions, host'.settled actions = host.settled (action :: actions) := by
  cases action with
  | setResourceDir dir => exact ⟨_, ⟨rfl, rfl⟩, rfl, fun _ => rfl⟩
  | changeFiles change => exact ⟨_, ⟨rfl, rfl⟩, rfl, fun _ => rfl⟩
  | release linkage payload =>
      rw [perform, linkage.release_eq]
      exact ⟨_, ⟨rfl, rfl⟩, rfl, fun _ => rfl⟩
  | resolve linkage allocator request =>
      obtain ⟨_, -, hreply⟩ := Source.exists_carries (host.settled []).returns
        (host.settled []).after_source allocator request host.files
      obtain ⟨reply, heap, hends, -⟩ := hreply host.heap
      rw [perform, linkage.resolve_eq]
      exact ⟨_, (ends_resolve hends).bind (Ends.pure () _), rfl, fun _ => rfl⟩

/-- So does a whole run, by induction on its actions. -/
theorem exists_ends_performAll (actions : List Action) (host : Host) :
    ∃ host', Ends (performAll actions) host () host' ∧
      host'.files = filesAfter host.files actions ∧
      host'.settled [] = host.settled actions := by
  induction actions generalizing host with
  | nil => exact ⟨host, Ends.pure () host, rfl, rfl⟩
  | cons action actions ih =>
      obtain ⟨host', hends, hfiles, hsettled⟩ := action.exists_ends host
      obtain ⟨host'', hends', hfiles', hsettled'⟩ := ih host'
      refine ⟨host'', hends.bind hends', ?_, hsettled'.trans (hsettled actions)⟩
      rw [hfiles', hfiles, ← filesAfter_cons]

end Action

open Host.Action (performAll filesAfter dirAtLookup essential)

/-- In a run of a process, let the variable be `dirAtLookup dir actions` when the first lookup
is made. Then every lookup of the run replies what the lookup over that directory replies on
the files as they are when it is made, or with nothing if the variable was not set. With the
same lookups and the same changes of files before it, the reply carries the same bytes, as far
as there is memory for them, whatever was released, whatever the variable was changed to since
the first lookup, and by whichever name the library was called. -/
theorem lookups_read_first_dir (dir : Option Path) (files : FileTree)
    {actions before later : List Action} {linkage : Linkage} {allocator : Allocator}
    {request : Request}
    (hactions : actions = before ++ .resolve linkage allocator request :: later) :
    ∃ blob : Blob,
      (∀ root name, dirAtLookup dir actions = some root → request.name = some name →
        Ends ((Directory.mk root).source.resolve (terminated name)) (filesAfter files before)
          blob (filesAfter files before)) ∧
      ∀ (before' : List Action) (linkage' : Linkage),
        essential false before' = essential false before →
        ∃ host reply host',
          Ends (performAll before') (start dir files) () host ∧
          Ends (linkage'.resolve allocator request) host reply host' ∧
          (∀ root, dirAtLookup dir actions = some root →
            Ends ((Directory.mk root).source.resolveInto allocator host.heap request)
              (filesAfter files before) (reply, host'.heap) (filesAfter files before)) ∧
          (dirAtLookup dir actions = none → reply = ⟨none, request.size.map fun _ => 0⟩) ∧
          reply.Carries request (request.share allocator host.heap blob) host'.heap := by
  subst hactions
  rw [Action.dirAtLookup_append_resolve]
  obtain ⟨blob, hblob, hreply⟩ := Source.exists_carries
    (HostSource.choose (dirAtLookup dir before)).returns
    (HostSource.choose (dirAtLookup dir before)).after_source allocator request
    (filesAfter files before)
  refine ⟨blob, ?_, ?_⟩
  · intro root name hdir hname
    rw [hdir] at hblob
    exact hblob name hname
  · intro before' linkage' hsame
    obtain ⟨host, hends, hfiles, hsettled⟩ :=
      Action.exists_ends_performAll before' (start dir files)
    -- runs that agree in what is essential have come to the same files and the same source
    have hnow : host.files = filesAfter files before := by
      rw [hfiles, ← Action.filesAfter_essential false, hsame, Action.filesAfter_essential]
      rfl
    have hsource : host.settled [] = .choose (dirAtLookup dir before) := by
      rw [hsettled, ← Action.dirAtLookup_essential dir before, ← hsame,
        Action.dirAtLookup_essential]
      rfl
    obtain ⟨reply, heap, hover, hcarries⟩ := hreply host.heap
    have hlookup := hover
    rw [← hnow, ← hsource] at hlookup
    rw [linkage'.resolve_eq]
    refine ⟨host, reply, _, hends, ends_resolve hlookup, ?_, ?_, hcarries⟩
    · intro root hroot
      rw [hroot] at hover
      exact hover
    · intro hnone
      rw [hnone] at hblob
      rw [HostSource.share_eq_nil_of_nothing hblob] at hcarries
      exact hcarries.eq_nothing

/-- A tree in which the name `p` stands for `bytes`, by the table in the directory `d`. -/
def treeNaming (bytes : Bytes) : FileTree :=
  ((FileTree.empty.put (.child .here [0x64]) .directory).put
    (.child (.child .here [0x64]) (Directory.fileName .table))
      (.file (Table.encode ⟨[⟨[0x70], 200⟩]⟩))).put
    (.child (.child .here [0x64]) (Directory.fileName ⟨200⟩)) (.file bytes)

/-- The first lookup passes nothing and fixes the directory all the same. The variable is
unset then, and the resource is looked up, given back and replaced. The next lookup gives the
new bytes, also where nothing was given back and the older names were used. -/
theorem lookups_read_first_dir_replaced :
    ∃ host reply host' payload,
      Ends (performAll [.setResourceDir (some ⟨[0x64]⟩), .resolve .legacy .bump ⟨none, none⟩,
          .changeFiles fun _ => treeNaming [9], .resolve .legacy .bump ⟨some [0x70], some 0⟩,
          .changeFiles fun _ => treeNaming [1, 2]]) (start none .empty) () host ∧
      Ends (resolveLegacy .bump ⟨some [0x70], some 7⟩) host reply host' ∧
      reply = ⟨some payload, some 2⟩ ∧ host'.heap.read payload 2 = some [1, 2] := by
  obtain ⟨blob, hblob, hruns⟩ := @lookups_read_first_dir none .empty _
    [.setResourceDir (some ⟨[0x64]⟩), .resolve .current .bump ⟨none, none⟩,
      .setResourceDir none, .changeFiles fun _ => treeNaming [9],
      .resolve .current .bump ⟨some [0x70], some 0⟩, .release .legacy (some 16),
      .changeFiles fun _ => treeNaming [1, 2]]
    [] .current .bump ⟨some [0x70], some 7⟩ rfl
  obtain ⟨host, reply, host', hends, hlookup, -, -, hcarries⟩ := hruns
    [.setResourceDir (some ⟨[0x64]⟩), .resolve .legacy .bump ⟨none, none⟩,
      .changeFiles fun _ => treeNaming [9], .resolve .legacy .bump ⟨some [0x70], some 0⟩,
      .changeFiles fun _ => treeNaming [1, 2]] .legacy rfl
  have hfound := (hblob ⟨[0x64]⟩ [0x70] rfl rfl).1
  have hnamed : (((Directory.mk ⟨[0x64]⟩).source.resolve (terminated [0x70]) :
      Traced FileTree _).run (treeNaming [1, 2])).result = .ok ⟨[1, 2]⟩ := by decide +kernel
  obtain rfl : blob = ⟨[1, 2]⟩ := Except.ok.inj (hfound.symm.trans hnamed)
  have hsome : reply.buffer ≠ none := fun hnone => nomatch hcarries.buffer.mp hnone
  obtain ⟨payload, hpayload⟩ := Option.ne_none_iff_exists'.mp hsome
  refine ⟨host, reply, host', payload, hends, hlookup, ?_, hcarries.contents payload hpayload⟩
  obtain ⟨buffer, size⟩ := reply
  rw [Reply.mk.injEq]
  exact ⟨hpayload, hcarries.size⟩

end Host

end NamedBlobs
