import TheHive.Lib.Transition
import TheHive.Lib.DocStore
import TheHive.Lib.ComparisonSort
import TheHive.Lib.StaleRegister
import TheHive.Lib.OrderBy
import TheHive.Lib.Civil
import TheHive.Lib.ClockText
import TheHive.Lib.RxStream
import TheHive.Lib.InFlight
import TheHive.Lib.TypedStore
import TheHive.Lib.FieldTree
import TheHive.Schema
import TheHive.Volunteer
import TheHive.SeatAccounting
import TheHive.SignUpRace
import TheHive.Clubs
import TheHive.Navigation
import TheHive.AuthGate
import TheHive.RootRoute
import TheHive.CalendarPage
import TheHive.CalendarDelete
import TheHive.CalendarTab
import TheHive.CreateFrame
import TheHive.JoinButton
import TheHive.CapturedUser
import TheHive.ClubDetails
import TheHive.VolunteerRun
import TheHive.UserProfile
import TheHive.Announcements
import TheHive.DocumentNames
import TheHive.DateRoundTrip
import TheHive.ClubCalendar
import TheHive.SignUpSettles
import TheHive.SignInFlows
import TheHive.EventForms
import TheHive.CalendarStreams
import TheHive.AnnouncementField
import TheHive.EventDates
import TheHive.Hive
import TheHive.AppWrites
import TheHive.HivePages
import TheHive.HiveKept
import TheHive.OwnPages
import TheHive.Recovery
import TheHive.CalendarBody
import TheHive.Firestore.ApplyChanges
import TheHive.Firestore.ObjectValue
import TheHive.Firestore.Mutation
import TheHive.Firestore.Overlay
import TheHive.Firestore.Writes
import TheHive.Firestore.LocalStore
import TheHive.Firestore.LocalBatches
import TheHive.Firestore.LocalRun
import TheHive.OfflineWrites
import TheHive.OfflineDevice
