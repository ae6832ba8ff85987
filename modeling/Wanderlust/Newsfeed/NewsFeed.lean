import Mathlib.Logic.Function.Basic
import Wanderlust.Entries.CustomAnnotation

/-!
# The news feed

`NewsFeedViewController`: a refresh queries the newsfeed of the user, fetches the entries one by
one, sorts them and then loads their photos. The posts are objects, referred to by numbers. Each
refresh has a list and, when that is full, a counter of its own; but `totalPics`, the number of
photos that the counters are compared with, belongs to the screen.
-/

namespace Wanderlust

/-- The seconds of a timestamp, which counts microseconds. -/
def seconds (t : Timestamp) : ℕ := t / 1000000

/-- An entry on the news feed: an annotation, with what only the feed sets. -/
structure Post extends CustomAnnotation where
  entryOwnerID : Uid
  timestamp : Timestamp

/-- The query of the feed: the newest items of the user's newsfeed, by the ids of their entries. -/
def Firestore.newsfeedOf (db : Firestore) (uid : Uid) (limit : ℕ) : List EntryID :=
  (newest (fun e => e.2.timestamp) limit (db.newsfeed.docs.filter fun e => e.1.1 = uid)).map
    fun e => e.1.2

/-- The state of the screen, with the Storage objects that it uses. -/
structure NewsFeed where
  currentUser : Uid
  heap : ℕ → Post
  next : ℕ
  postList : List ℕ
  totalPics : ℕ
  /-- The images that the cache has. -/
  cache : URL → Option UIImage
  /-- `tempPostList` of each refresh. -/
  tempPostList : ℕ → List ℕ
  nextList : ℕ
  doneCounter : ℕ → ℕ
  nextCounter : ℕ
  bucket : Bucket
  /-- `refreshControl` is refreshing. -/
  refreshing : Bool
  /-- What the table has been loaded with, each time. -/
  reloads : List (List Post)

namespace NewsFeed

inductive Callback
  -- `loadFeedWithFirebase`
  | feedFetched
  | entryFetched (list count : ℕ) (id : EntryID)
  -- `loadPhotosFromStorage`
  | imageDownloaded (counter post : ℕ) (url : URL)
  deriving DecidableEq

/-- What the user does; and the cache, which may drop an image at any time. -/
inductive Event
  | viewDidLoad
  | refreshNewsFeed
  | toTop
  | evict (url : URL)

abbrev Cmd := Async.Cmd Write Callback
abbrev Handler := Async.Handler NewsFeed Write Callback

/-- `limit`. -/
def limit : ℕ := 10

/-- The screen before its view is loaded. -/
def opened (currentUser : Uid) (bucket : Bucket) : NewsFeed where
  currentUser := currentUser
  heap := fun _ => ⟨default, "", 0⟩
  next := 0
  postList := []
  totalPics := 0
  cache := fun _ => none
  tempPostList := fun _ => []
  nextList := 0
  doneCounter := fun _ => 0
  nextCounter := 0
  bucket := bucket
  refreshing := false
  reloads := []

/-- `newsFeedTable.reloadData()`. -/
def reloadData (l : NewsFeed) : NewsFeed :=
  { l with reloads := l.reloads ++ [l.postList.map l.heap] }

/-- `doneCounter = doneCounter + 1` with its observer, which traps when there is no row to scroll
to. -/
def donePicture (counter : ℕ) (l : NewsFeed) : Option NewsFeed :=
  let l := { l with
    doneCounter := Function.update l.doneCounter counter (l.doneCounter counter + 1) }
  if l.doneCounter counter = l.totalPics then
    if l.postList = [] then none
    else
      let l := reloadData { l with totalPics := 0 }
      some { l with refreshing := false }
  else some l

/-- `post.images.append(image)`. -/
def appendImage (post : ℕ) (image : UIImage) (l : NewsFeed) : NewsFeed :=
  let p := l.heap post
  let p := { p with images := p.images ++ [image], numPhotos := p.images.length + 1 }
  { l with heap := Function.update l.heap post p }

/-- A photo of `loadPhotosFromStorage`. -/
def loadPhoto (counter : ℕ) (photo : ℕ × URL) (l : NewsFeed) : Option (NewsFeed × List Cmd) :=
  match l.cache photo.2 with
  | some imageFromCache =>
    (donePicture counter (appendImage photo.1 imageFromCache l)).map fun l => (l, [])
  | none => some (l, [.request (.imageDownloaded counter photo.1 photo.2)])

/-- The loop of `loadPhotosFromStorage`. -/
def loadPhotos (counter : ℕ) : List (ℕ × URL) → NewsFeed → Option (NewsFeed × List Cmd)
  | [], l => some (l, [])
  | photo :: photos, l =>
    (loadPhoto counter photo l).bind fun r =>
      (loadPhotos counter photos r.1).map fun r' => (r'.1, r.2 ++ r'.2)

/-- The photos of the posts, in the order of the loops. -/
def photos (l : NewsFeed) : List (ℕ × URL) :=
  l.postList.flatMap fun post => (l.heap post).imageUrls.map fun imageUrl => (post, imageUrl)

/-- `loadPhotosFromStorage`. -/
def loadPhotosFromStorage (l : NewsFeed) : Option (NewsFeed × List Cmd) :=
  loadPhotos l.nextCounter l.photos
    { l with
      doneCounter := Function.update l.doneCounter l.nextCounter 0
      nextCounter := l.nextCounter + 1 }

/-- The closure that is given the query: when there is nothing, the table is emptied. -/
def feedFetched (documents : List EntryID) : Handler := fun l =>
  if documents.length = 0 then
    let l := reloadData { l with postList := [] }
    ({ l with refreshing := false }, [])
  else
    ({ l with
        tempPostList := Function.update l.tempPostList l.nextList []
        nextList := l.nextList + 1 },
      documents.map fun id => .request (.entryFetched l.nextList documents.length id))

/-- The post of an entry. Its cover is read as a string, which traps if there is none. -/
def postOf (data : EntryDoc) : Option Post :=
  data.coverPhoto.map fun coverPhoto =>
    { (default : CustomAnnotation) with
      imageUrls := data.mediaList
      coordinate := data.coordinates
      locationName := data.locationName
      title := data.entryName
      text := data.description
      order := data.entryOrder
      coverPhoto := some coverPhoto
      entryID := data.entryID
      entryOwnerID := data.userID
      timestamp := data.timestamp }

/-- `tempPostList.append(tempAnnotation)` with its observer: when all posts are there, they are
sorted by the seconds of their timestamps, newest first. -/
def appendPost (list count : ℕ) (post : ℕ) (l : NewsFeed) : Option (NewsFeed × List Cmd) :=
  let temp := l.tempPostList list ++ [post]
  if temp.length = count then
    let sorted := temp.insertionSort fun p p' =>
      seconds (l.heap p').timestamp ≤ seconds (l.heap p).timestamp
    loadPhotosFromStorage
      { l with tempPostList := Function.update l.tempPostList list sorted, postList := sorted }
  else some ({ l with tempPostList := Function.update l.tempPostList list temp }, [])

/-- The closure that is given an entry. -/
def entryFetched (list count : ℕ) (data : EntryDoc) (l : NewsFeed) :
    Option (NewsFeed × List Cmd) :=
  (postOf data).bind fun post =>
    appendPost list count l.next
      { l with
        heap := Function.update l.heap l.next post
        next := l.next + 1
        totalPics := data.mediaList.length + l.totalPics }

/-- The code of the closures. A fetch that fails traps, as does one of an entry that is gone. -/
def react : Callback → Bool → Unit → NewsFeed → Firestore → Option (NewsFeed × List Cmd)
  | .feedFetched, ok, _, l, db =>
    some (if ok then feedFetched (db.newsfeedOf l.currentUser limit) l else (l, []))
  | .entryFetched list count id, ok, _, l, db =>
    (if ok then db.entries.lookup id else none).bind fun data => entryFetched list count data l
  | .imageDownloaded counter post url, ok, _, l, _ =>
    match if ok then l.bucket.lookup url.path else none with
    | none => some (l, [])
    | some data =>
      let image : UIImage := .ofData data
      (donePicture counter
        (appendImage post image { l with cache := Function.update l.cache url (some image) })).map
          fun l => (l, [])

/-- `loadFeedWithFirebase`. -/
def loadFeedWithFirebase : Handler := .issue fun _ => [.request .feedFetched]

/-- The code of the user's actions. -/
def event : Event → NewsFeed → Firestore → Option (NewsFeed × List Cmd)
  | .viewDidLoad, l, _ => some (loadFeedWithFirebase l)
  | .refreshNewsFeed, l, _ => some (loadFeedWithFirebase { l with refreshing := true })
  | .toTop, l, _ => some (loadFeedWithFirebase l)
  | .evict url, l, _ => some ({ l with cache := Function.update l.cache url none }, [])

/-- `NewsFeedViewController`. -/
def program : Async.Program Firestore NewsFeed Write Callback Unit Event where
  apply := Write.apply
  react := react
  event := event

end NewsFeed

end Wanderlust
