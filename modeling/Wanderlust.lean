import Wanderlust.Client.LocalStore
import Wanderlust.Coding.Documents
import Wanderlust.Entries.FailedEdit
import Wanderlust.Explore.LeftAligned
import Wanderlust.Explore.SearchBar
import Wanderlust.Explore.Tiles
import Wanderlust.Login.Session
import Wanderlust.Newsfeed.Refresh
import Wanderlust.Profile.Consent
import Wanderlust.Profile.FavoriteTrips
import Wanderlust.Profile.FollowUnfollow
import Wanderlust.Profile.RequestRows
import Wanderlust.Profile.Requests
import Wanderlust.Profile.TwoFollowers
import Wanderlust.Profile.Unfollows
import Wanderlust.Settings.Bio
import Wanderlust.Settings.Password
import Wanderlust.System.Community
import Wanderlust.System.Covers
import Wanderlust.System.Device
import Wanderlust.System.EarlySave
import Wanderlust.System.Feeds
import Wanderlust.System.PhotoFiles
import Wanderlust.System.PhotoOrder
import Wanderlust.System.Visits
import Wanderlust.Trips.EntryDeletion
import Wanderlust.Trips.FailedSave
import Wanderlust.Trips.Favorite
import Wanderlust.Trips.ManySaves
import Wanderlust.Trips.Ownership
import Wanderlust.Trips.Pins
import Wanderlust.Trips.Reload
import Wanderlust.Trips.RepeatedSave
