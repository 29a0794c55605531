import BuildYourOwnStuff.Foundations.Buffers
import BuildYourOwnStuff.Foundations.Blocks
import BuildYourOwnStuff.Foundations.Frames
import BuildYourOwnStuff.Foundations.KeyedUpdates
import BuildYourOwnStuff.Foundations.Lines
import BuildYourOwnStuff.Foundations.Delimiters
import BuildYourOwnStuff.Foundations.Loops
import BuildYourOwnStuff.Foundations.Runs
import BuildYourOwnStuff.Foundations.Since
import BuildYourOwnStuff.Foundations.Marks
import BuildYourOwnStuff.Foundations.FileTrees
import BuildYourOwnStuff.Foundations.Threads
import BuildYourOwnStuff.Foundations.Blocking
import BuildYourOwnStuff.GoStd.Slices
import BuildYourOwnStuff.GoStd.BufioScanner
import BuildYourOwnStuff.GoStd.BufioReader
import BuildYourOwnStuff.GoStd.Utf8
import BuildYourOwnStuff.GoStd.JsonScanner
import BuildYourOwnStuff.GoStd.JsonTexts
import BuildYourOwnStuff.GoStd.JsonString
import BuildYourOwnStuff.GoStd.JsonStruct
import BuildYourOwnStuff.Storage.Page
import BuildYourOwnStuff.Storage.PageCalls
import BuildYourOwnStuff.Storage.PageInvariant
import BuildYourOwnStuff.Storage.PageSession
import BuildYourOwnStuff.Storage.PageReuse
import BuildYourOwnStuff.Storage.PageImage
import BuildYourOwnStuff.Storage.PageManager
import BuildYourOwnStuff.Storage.PageReload
import BuildYourOwnStuff.Storage.ManagerRuns
import BuildYourOwnStuff.Storage.DamagedPages
import BuildYourOwnStuff.Wal.KVStore
import BuildYourOwnStuff.Wal.Log
import BuildYourOwnStuff.Wal.Recovery
import BuildYourOwnStuff.Wal.Replacement
import BuildYourOwnStuff.Wal.Concurrency
import BuildYourOwnStuff.SimpleKv.Engines
import BuildYourOwnStuff.SimpleKv.FileFormat
import BuildYourOwnStuff.SimpleKv.Restarts
import BuildYourOwnStuff.SimpleKv.Durability
import BuildYourOwnStuff.SimpleKv.Crashes
import BuildYourOwnStuff.Bloom.Filter
import BuildYourOwnStuff.Bloom.Membership
import BuildYourOwnStuff.Bloom.Probes
import BuildYourOwnStuff.CppStd.CString
import BuildYourOwnStuff.CppStd.ReadUntil
import BuildYourOwnStuff.ChatRoom.Message
import BuildYourOwnStuff.ChatRoom.Room
import BuildYourOwnStuff.ChatRoom.Session
import BuildYourOwnStuff.ChatRoom.Writes
import BuildYourOwnStuff.ChatRoom.Network
import BuildYourOwnStuff.ChatRoom.Client
import BuildYourOwnStuff.ChatRoom.Reader
import BuildYourOwnStuff.ChatServer.Server
import BuildYourOwnStuff.ChatServer.Directory
import BuildYourOwnStuff.ChatServer.Threads
import BuildYourOwnStuff.ChatServer.Framing
import BuildYourOwnStuff.ChatServer.Receivers
import BuildYourOwnStuff.ChatServer.Receive
import BuildYourOwnStuff.ChatServer.BufferBounds
import BuildYourOwnStuff.ChatServer.DirectMessages
import BuildYourOwnStuff.ChatServer.Client
import BuildYourOwnStuff.ChatServer.Progress
import BuildYourOwnStuff.SimpleClientServer.Parties
import BuildYourOwnStuff.SimpleClientServer.Conversation
import BuildYourOwnStuff.HttpServer.Handler
import BuildYourOwnStuff.HttpServer.Disclosure
import BuildYourOwnStuff.HttpServer.Arrival
import BuildYourOwnStuff.HttpServer.Framing
import BuildYourOwnStuff.Foundations.LongestMatch
import BuildYourOwnStuff.Foundations.LexRules
import BuildYourOwnStuff.JavaStd.Strings
import BuildYourOwnStuff.JavaStd.Doubles
import BuildYourOwnStuff.JavaStd.Readers
import BuildYourOwnStuff.Jlox.Token
import BuildYourOwnStuff.Jlox.Scanner
import BuildYourOwnStuff.Jlox.Grammar
import BuildYourOwnStuff.Jlox.Ahead
import BuildYourOwnStuff.Jlox.Scanning
import BuildYourOwnStuff.Jlox.Progress
import BuildYourOwnStuff.Jlox.Concatenation
import BuildYourOwnStuff.Jlox.Lox
import BuildYourOwnStuff.Jlox.Reprinting
import BuildYourOwnStuff.Jlox.LineNumbers
import BuildYourOwnStuff.SimpleParsing.Lexer
import BuildYourOwnStuff.SimpleParsing.Parser
import BuildYourOwnStuff.SimpleParsing.Recognition
import BuildYourOwnStuff.SimpleParsing.Statements
import BuildYourOwnStuff.Streams.AngryReader
import BuildYourOwnStuff.Streams.Buffering
import BuildYourOwnStuff.FileSystemTut.Rows
import BuildYourOwnStuff.SocketProg.Sockets
import BuildYourOwnStuff.SocketProg.Epoll
import BuildYourOwnStuff.SocketProg.PollLoop
import BuildYourOwnStuff.SocketProg.SelectLoop
import BuildYourOwnStuff.SocketProg.Equivalence
import BuildYourOwnStuff.SocketProg.Connections
import BuildYourOwnStuff.SocketProg.Rounds
import BuildYourOwnStuff.SocketProg.EchoRuns
import BuildYourOwnStuff.SocketProg.EpollRuns
import BuildYourOwnStuff.SocketProg.Threaded
import BuildYourOwnStuff.MultiThreading.ProducerConsumer
import BuildYourOwnStuff.MultiThreading.Counters
import BuildYourOwnStuff.MultiThreading.TwoLocks
import BuildYourOwnStuff.MultiThreading.TryLock
import BuildYourOwnStuff.MultiThreading.Balance
import BuildYourOwnStuff.MultiThreading.RecursiveMutex
